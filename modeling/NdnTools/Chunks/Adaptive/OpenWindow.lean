/-
Whether the window of an adaptive pipeline stays open, that is at least 1, so that `schedulePackets`
has a place for an Interest when nothing is in flight. The window of `PipelineInterestsAimd` does: its
decrease goes to a threshold of 2 at least, or to the initial window. `PipelineInterestsCubic` and
`PipelineInterestsTcpBic` multiply the window without a lower bound, so theirs stays open exactly as
long as the losses they react to find it wide enough.
-/
import NdnTools.Chunks.Adaptive.History
import NdnTools.Chunks.Adaptive.Cubic
import NdnTools.Chunks.Adaptive.TcpBic
import Mathlib.Data.Rat.Floor

namespace NdnTools.Chunks.Adaptive

variable {κ : Type} {sch : Scheme κ}

/-! ## Sending into an open window -/

/-- A segment may be sent: one that is queued and has retries left, or the next one. -/
def Sendable (sch : Scheme κ) (s : Adaptive κ) : Prop :=
  s.isStopping = false ∧
    match s.retxQueue.find? (· ∈ s.segmentInfo) with
    | some n => ¬ Exhausted sch n s
    | none => ¬ s.beyond (nextNo s) ∧ s.hasFailure = false

instance (sch : Scheme κ) (s : Adaptive κ) : Decidable (Sendable sch s) :=
  match h : s.retxQueue.find? (· ∈ s.segmentInfo) with
  | some n => decidable_of_iff (s.isStopping = false ∧ ¬ Exhausted sch n s) (by simp only [Sendable, h])
  | none => decidable_of_iff (s.isStopping = false ∧ ¬ s.beyond (nextNo s) ∧ s.hasFailure = false)
      (by simp only [Sendable, h])

/-- With a place in the window and fuel for the queue the loop of `schedulePackets` sends an Interest. -/
theorem log_sends (now : Time) {avail : ℤ} (hpos : 0 < avail) :
    ∀ {fuel : ℕ} {s : Adaptive κ}, s.retxQueue.length < fuel → Sendable sch s →
      ∃ a ∈ (scheduleLoop sch now).log (fun x => attempt sch now x.2) fuel (avail, s), a.isSent = true
  | 0, _, hfuel, _ => absurd hfuel (Nat.not_lt_zero _)
  | fuel + 1, s, hfuel, ⟨hgo, hsend⟩ => by
    have hguard : (scheduleLoop sch now).guard (avail, s) = true := decide_eq_true hpos
    rw [Loop.log_succ, if_pos hguard]
    cases hq : s.retxQueue with
    | nil =>
      rw [hq] at hsend
      have hreq : Requests s := ⟨hgo, hq, hsend.1, hsend.2⟩
      refine ⟨⟨now, nextNo s, .first⟩, List.mem_append_left _ ?_, rfl⟩
      simp [attempt, hq, hreq]
    | cons n queue =>
      rw [hq, List.find?_cons] at hsend
      by_cases hn : n ∈ s.segmentInfo
      · have hex : ¬ Exhausted sch n s := by simpa [hn] using hsend
        have hretry : Retries n s := ⟨hgo, by rw [hq]; rfl, hn⟩
        refine ⟨⟨now, n, .retransmission⟩, List.mem_append_left _ ?_, rfl⟩
        simp [attempt, hq, hretry, hex]
      · -- a segment without an entry only leaves the queue
        have hbody : (scheduleLoop sch now).body (avail, s) = (avail, popRetx queue s) := by
          simp only [scheduleLoop, hq]
          rw [if_neg hn]
          rfl
        rw [hbody]
        have hlen : (popRetx queue s).retxQueue.length < fuel := by
          rw [hq] at hfuel
          exact Nat.lt_of_succ_lt_succ hfuel
        have hnext : Sendable sch (popRetx queue s) := by
          rw [decide_eq_false hn] at hsend
          exact ⟨hgo, hsend⟩
        obtain ⟨a, ha, hsent⟩ := log_sends now hpos hlen hnext
        exact ⟨a, List.mem_append_right _ ha, hsent⟩

theorem attempts_send (now : Time) {s : Adaptive κ} (hpos : 0 < availableWindowSize sch s) (h : Sendable sch s) :
    ∃ a ∈ attempts sch now s, a.isSent = true := by
  refine log_sends now hpos ?_ h
  unfold scheduleFuel
  omega

/-- With nothing in flight `schedulePackets` sends an Interest if a segment may be sent. -/
def Sends (sch : Scheme κ) (c : κ) : Prop :=
  ∀ (s : Adaptive κ) (now : Time), s.control = c → s.nInFlight = 0 → Sendable sch s →
    ∃ a ∈ attempts sch now s, a.isSent = true

/-- The window is at least 1, and so is the `int` made of it, where there is one. -/
structure Open (sch : Scheme κ) (cwnd : κ → ℚ) (c : κ) : Prop where
  floor : 1 ≤ (cwnd c).floor
  sends : cwnd c < 2 ^ 31 → Sends sch c

theorem toInt_pos {q : ℚ} (h : 1 ≤ q) : 1 ≤ Aimd.toInt q := by
  unfold Aimd.toInt
  rw [if_pos (le_trans zero_le_one h)]
  exact Rat.le_floor_iff.2 (by exact_mod_cast h)

/-- A window of 1 is enough. -/
theorem sends_of_le {cwnd : κ → ℚ} (hcwnd : ∀ c, sch.cwnd c = Aimd.toInt (cwnd c)) {c : κ} (h : 1 ≤ cwnd c) :
    Sends sch c := by
  intro s now hc hin hsend
  refine attempts_send now ?_ hsend
  have hpos := toInt_pos h
  unfold availableWindowSize
  rw [hc, hcwnd, hin]
  push_cast
  omega

theorem Open.of_le {cwnd : κ → ℚ} (hcwnd : ∀ c, sch.cwnd c = Aimd.toInt (cwnd c)) {c : κ} (h : 1 ≤ cwnd c) :
    Open sch cwnd c where
  floor := Rat.le_floor_iff.2 (by exact_mod_cast h)
  sends _ := sends_of_le hcwnd h

theorem Open.le {cwnd : κ → ℚ} {c : κ} (h : Open sch cwnd c) : 1 ≤ cwnd c := by
  have hfloor := Rat.le_floor_iff.1 h.floor
  exact_mod_cast hfloor

/-! ## The window along a run -/

/-- What to prove of an invariant `J` of the congestion control along runs in which it has `A` whenever
Data is accepted, and `L` whenever a loss counts. -/
structure KeepsControl (sch : Scheme κ) (J A L : κ → Prop) : Prop where
  accept : ∀ {c} (now : Time) (segNo : ℕ) (info : SegmentInfo) (nExpectedSamples : ℕ), J c → A c →
    J (acknowledge sch now segNo info nExpectedSamples c)
  reduce : ∀ {c} (now : Time), J c → L c → J (sch.backoffRto (sch.decreaseWindow now c))

/-- The congestion control has `A` if the event brings Data that is accepted, and `L` if it is a loss that
counts. -/
def Finds (sch : Scheme κ) (A L : κ → Prop) (s : Adaptive κ) (e : Event) : Prop :=
  (Accepts sch s e → A s.control) ∧ (Reduces sch s e → L s.control)

instance (sch : Scheme κ) (A L : κ → Prop) [DecidablePred A] [DecidablePred L] (s : Adaptive κ) (e : Event) :
    Decidable (Finds sch A L s e) := inferInstanceAs (Decidable (_ ∧ _))

variable {J A L : κ → Prop} {now : Time} {control : κ} {data : Data} {es : List Event}

theorem KeepsControl.step (h : KeepsControl sch J A L) {s : Adaptive κ} {e : Event} (hs : J s.control)
    (he : enabled s e) (hc : Finds sch A L s e) : J (step sch s e).control := by
  have hresponse : Response sch s e (Adaptive.step sch s e) := step_response he
  generalize Adaptive.step sch s e = t at hresponse
  cases hresponse with
  | kept refused calm control => rw [control]; exact hs
  | accepted accepts k control => rw [control]; exact h.accept _ _ _ k hs (hc.1 accepts)
  | reduced reduces control => rw [control]; exact h.reduce _ hs (hc.2 reduces)

/-- An invariant that asks for nothing holds in every state of a run. -/
theorem KeepsControl.always (h : KeepsControl sch J (fun _ => True) (fun _ => True)) (hs : J control)
    (hr : (machine sch).Runs (run sch now control data) es) :
    (machine sch).Always (fun s => J s.control) (run sch now control data) es := by
  refine Machine.always_of_step (fun s e hs he => h.step hs he ⟨fun _ => trivial, fun _ => trivial⟩) ?_ hr
  rw [control_run]
  exact hs

/-- The window stays open along a run exactly if the congestion control is found with `A` and `L`, where
these say, under the invariant, that it is open afterwards. -/
theorem always_open_iff {cwnd : κ → ℚ} (hcwnd : ∀ c, sch.cwnd c = Aimd.toInt (cwnd c)) (h : KeepsControl sch J A L)
    (hwide : ∀ {c}, J c → 1 ≤ cwnd c)
    (haccept : ∀ {c} now segNo info nExpectedSamples, J c →
      1 ≤ cwnd (acknowledge sch now segNo info nExpectedSamples c) → A c)
    (hreduce : ∀ {c} now, J c → 1 ≤ cwnd (sch.backoffRto (sch.decreaseWindow now c)) → L c)
    (hs : J control) (hr : (machine sch).Runs (run sch now control data) es) :
    (machine sch).Always (fun s => Open sch cwnd s.control) (run sch now control data) es ↔
      (machine sch).Each (Finds sch A L) (run sch now control data) es := by
  refine Machine.always_iff_each (I := fun s => J s.control) (fun s hs => .of_le hcwnd (hwide hs))
    (fun s e hs he hc => h.step hs he hc) (fun s e hs he hopen => ?_) ?_ hr
  · have hresponse : Response sch s e (step sch s e) := step_response he
    have hle := hopen.le
    change 1 ≤ cwnd (step sch s e).control at hle
    generalize step sch s e = t at hresponse hle
    cases hresponse with
    | kept refused calm control => exact ⟨fun ha => absurd ha refused, fun hl => absurd hl calm⟩
    | accepted accepts k control =>
      rw [control] at hle
      exact ⟨fun _ => haccept _ _ _ k hs hle, fun hl => False.elim hl.1⟩
    | reduced reduces control =>
      rw [control] at hle
      refine ⟨fun ha => ?_, fun _ => hreduce _ hs hle⟩
      cases e with
      | data now id d => exact False.elim reduces.1
      | _ => exact False.elim ha
  · rw [control_run]
    exact hs

/-! ## The window of `PipelineInterestsAimd` -/

namespace Aimd

inductive Call
  | increaseWindow
  | decreaseWindow
  deriving Repr, DecidableEq

/-- The window under calls in any order. -/
def calls (o : Options) : Machine Window Call where
  enabled _ _ := True
  step w
    | .increaseWindow => increaseWindow o w
    | .decreaseWindow => decreaseWindow o w

variable {o : Options} {w : Window}

theorem le_increaseWindow (hw : 1 ≤ w.cwnd) (hstep : 0 ≤ o.aiStep) : w.cwnd ≤ (increaseWindow o w).cwnd := by
  have hfloor : (0 : ℚ) ≤ w.cwnd.floor := by
    exact_mod_cast Rat.le_floor_iff.2 (by exact_mod_cast zero_le_one.trans hw)
  unfold increaseWindow
  split
  · exact le_add_of_nonneg_right hstep
  · exact le_add_of_nonneg_right (div_nonneg hstep hfloor)

/-- The divisor is at least 1, so the step is at most `aiStep`. -/
theorem increaseWindow_le (hw : 1 ≤ w.cwnd) (hstep : 0 ≤ o.aiStep) :
    (increaseWindow o w).cwnd ≤ w.cwnd + o.aiStep := by
  have hfloor : (1 : ℚ) ≤ w.cwnd.floor := by
    exact_mod_cast Rat.le_floor_iff.2 (by exact_mod_cast hw)
  unfold increaseWindow
  split
  · exact le_rfl
  · exact add_le_add_right (div_le_self hstep hfloor) _

theorem ssthresh_increaseWindow (o : Options) (w : Window) : (increaseWindow o w).ssthresh = w.ssthresh := by
  unfold increaseWindow
  split <;> rfl

theorem two_le_ssthresh (o : Options) (w : Window) : 2 ≤ (decreaseWindow o w).ssthresh := le_max_left _ _

theorem one_le_decreaseWindow (hinit : 1 ≤ o.initCwnd) (w : Window) : 1 ≤ (decreaseWindow o w).cwnd := by
  change 1 ≤ if o.resetCwndToInit then o.initCwnd else (decreaseWindow o w).ssthresh
  split
  · exact hinit
  · exact le_trans (by norm_num) (two_le_ssthresh o w)

/-- Increases keep the threshold, so it is 2 at least once the window was decreased. -/
theorem two_le_ssthresh_exec : ∀ (cs : List Call) {w : Window}, 2 ≤ w.ssthresh ∨ .decreaseWindow ∈ cs →
    2 ≤ ((calls o).exec w cs).ssthresh
  | [], _, h => h.resolve_right List.not_mem_nil
  | .increaseWindow :: cs, w, h => by
    refine two_le_ssthresh_exec cs (h.imp (fun hw => ?_) fun hd => ?_)
    · exact (ssthresh_increaseWindow o w).symm ▸ hw
    · exact (List.mem_cons.1 hd).resolve_left (by simp)
  | .decreaseWindow :: cs, w, _ => two_le_ssthresh_exec cs (.inl (two_le_ssthresh o w))

theorem cwnd_control (o : Options) (toUri : ℕ → String) (w : Window) : (scheme o toUri).cwnd w = toInt w.cwnd := rfl

/-- The window never closes. Arithmetic is exact here, and an `int` holds every window. -/
theorem window_never_closes (o : Options) (rtt : RttEstimator.Options) (toUri : ℕ → String)
    (hinit : 1 ≤ o.initCwnd) (hstep : 0 ≤ o.aiStep) (cs : List Call) :
    (calls o).Always (fun w => 1 ≤ w.cwnd ∧ w.cwnd.floor ≠ 0 ∧ Sends (scheme o toUri) w) (initial o rtt) cs ∧
    (calls o).Each (fun w c => c = .increaseWindow → (increaseWindow o w).cwnd ≤ w.cwnd + o.aiStep) (initial o rtt) cs ∧
    (.decreaseWindow ∈ cs → 2 ≤ ((calls o).exec (initial o rtt) cs).ssthresh) := by
  have hruns : (calls o).Runs (initial o rtt) cs := Machine.runs_of_enabled (fun _ _ => trivial) _ _
  have hwide : (calls o).Always (fun w => 1 ≤ w.cwnd) (initial o rtt) cs := by
    refine Machine.always_of_step (fun w c hw _ => ?_) hinit hruns
    cases c with
    | increaseWindow => exact le_trans hw (le_increaseWindow hw hstep)
    | decreaseWindow => exact one_le_decreaseWindow hinit w
  refine ⟨hwide.imp fun w hw => ?_, ?_, fun hd => two_le_ssthresh_exec cs (.inr hd)⟩
  · have hfloor : 1 ≤ w.cwnd.floor := Rat.le_floor_iff.2 (by exact_mod_cast hw)
    exact ⟨hw, by omega, sends_of_le (cwnd_control o toUri) hw⟩
  · refine Machine.each_of_always (fun w c hw _ _ => ?_) hruns hwide
    intro _
    exact increaseWindow_le hw hstep

theorem window_never_closes_default :
    (calls (withCwnd 1)).Always (fun w => 1 ≤ w.cwnd ∧ w.cwnd.floor ≠ 0 ∧ Sends (pipeline 1) w)
      (initial (withCwnd 1) .default) [.increaseWindow, .decreaseWindow, .increaseWindow] ∧
    (calls (withCwnd 1)).Each (fun w c => c = .increaseWindow → (increaseWindow (withCwnd 1) w).cwnd ≤ w.cwnd + 1)
      (initial (withCwnd 1) .default) [.increaseWindow, .decreaseWindow, .increaseWindow] ∧
    (Call.decreaseWindow ∈ [Call.increaseWindow, .decreaseWindow, .increaseWindow] →
      2 ≤ ((calls (withCwnd 1)).exec (initial (withCwnd 1) .default)
        [.increaseWindow, .decreaseWindow, .increaseWindow]).ssthresh) :=
  window_never_closes (withCwnd 1) .default (fun n => "/data/" ++ toString n) le_rfl zero_le_one _

/-- So the window of a pipeline is open throughout its run. -/
theorem always_open (o : Options) (toUri : ℕ → String) (hinit : 1 ≤ o.initCwnd) (hstep : 0 ≤ o.aiStep)
    (rtt : RttEstimator.Options) (now : Time) (data : Data) {es : List Event}
    (hr : (machine (scheme o toUri)).Runs (run (scheme o toUri) now (initial o rtt) data) es) :
    (machine (scheme o toUri)).Always (fun s => Open (scheme o toUri) Window.cwnd s.control)
      (run (scheme o toUri) now (initial o rtt) data) es := by
  have hkeeps : KeepsControl (scheme o toUri) (fun w => 1 ≤ w.cwnd) (fun _ => True) (fun _ => True) := by
    refine ⟨fun {w} now segNo info k hw _ => ?_, fun {w} now _ _ => one_le_decreaseWindow hinit w⟩
    have hsame : (acknowledge (scheme o toUri) now segNo info k w).cwnd = (increaseWindow o w).cwnd := by
      change (if Measured info then _ else increaseWindow o w).cwnd = _
      split <;> rfl
    rw [hsame]
    exact le_trans hw (le_increaseWindow hw hstep)
  exact (hkeeps.always hinit hr).imp fun s hs => .of_le (cwnd_control o toUri) hs

end Aimd

end NdnTools.Chunks.Adaptive
