/-
Whether the windows of `PipelineInterestsCubic` and `PipelineInterestsTcpBic` stay open. Their increases
never go below 1 but for a binary search with a negative target, and their decreases are
multiplications without a lower bound (the threshold of `PipelineInterestsCubic` has one, the window
has not). So a window stays open as long as each loss that counts finds it wide enough, and no longer.
-/
import NdnTools.Chunks.Adaptive.OpenWindow
import NdnTools.Chunks.Adaptive.CubicCurve
import NdnTools.Chunks.Adaptive.TcpBic

namespace NdnTools.Chunks.Adaptive

/-! ## `PipelineInterestsCubic` -/

namespace Cubic

variable {cubeRoot : ℚ → ℚ} {o : Options} {w : Window}

theorem le_increaseWindow (cubeRoot : ℚ → ℚ) (now : Time) (hw : 1 ≤ w.cwnd) (hstep : 0 ≤ o.aiStep) :
    w.cwnd ≤ (increaseWindow cubeRoot o now w).cwnd := by
  unfold increaseWindow
  split
  · exact le_add_of_nonneg_right hstep
  · exact (lt_cubicUpdate now hw).le

/-- An acknowledgement is an increase, after the measurement, which does not concern the window. -/
theorem acknowledge_eq (cubeRoot : ℚ → ℚ) (o : Options) (toUri : ℕ → String) (now : Time) (segNo : ℕ)
    (info : SegmentInfo) (k : ℕ) (w : Window) :
    ∃ minRtt rtt, acknowledge (scheme cubeRoot o toUri) now segNo info k w =
      increaseWindow cubeRoot o now { w with cubicMinRtt := minRtt, rttEstimator := rtt } := by
  by_cases h : Measured info
  · exact ⟨_, _, congrArg (increaseWindow cubeRoot o now) (if_pos h)⟩
  · exact ⟨_, _, congrArg (increaseWindow cubeRoot o now) (if_neg h)⟩

/-- A loss leaves the window at 1 at least. -/
def WithstandsLoss (o : Options) (w : Window) : Prop := 1 ≤ w.cwnd * (1 - o.cubicBeta)

instance (o : Options) : DecidablePred (WithstandsLoss o) := fun _ => inferInstanceAs (Decidable (_ ≤ _))

theorem keepsControl (toUri : ℕ → String) (hstep : 0 ≤ o.aiStep) :
    KeepsControl (scheme cubeRoot o toUri) (fun w => 1 ≤ w.cwnd) (fun _ => True) (WithstandsLoss o) := by
  constructor
  · intro w now segNo info k hw _
    obtain ⟨minRtt, rtt, heq⟩ := acknowledge_eq cubeRoot o toUri now segNo info k w
    rw [heq]
    exact le_trans hw (le_increaseWindow cubeRoot now hw hstep)
  · intro w now _ hl
    exact hl

end Cubic

/-! ## `PipelineInterestsTcpBic` -/

namespace TcpBic

variable {o : Options} {u : Unset} {w : Window}

/-- The window after an increase, by its regime. -/
theorem cwnd_increaseWindow (w : Window) :
    (increaseWindow w).cwnd =
      if w.cwnd < lowWindow then tcpIncrease w
      else if w.isBicSs = false then searchIncrease w
      else w.cwnd + w.bicSsCwnd / w.cwnd := by
  unfold increaseWindow searchOn slowStartOn
  split
  · rfl
  split
  · split <;> rfl
  · dsimp only
    split <;> split <;> rfl

theorem cwnd_decreaseWindow (u : Unset) (w : Window) :
    (decreaseWindow u w).cwnd =
      if u.resetToInitial then (u.initialWindow : ℚ)
      else if lowWindow ≤ w.cwnd then w.cwnd * u.beta else w.cwnd / 2 := by
  unfold decreaseWindow bicDecrease
  dsimp only
  split
  · rfl
  split <;> rfl

/-- The step of the slow start is positive while the slow start lasts. -/
def Stepping (w : Window) : Prop := w.isBicSs = true → 1 ≤ w.bicSsCwnd

theorem Stepping.increaseWindow (h : Stepping w) : Stepping (increaseWindow w) := by
  unfold TcpBic.increaseWindow
  split
  · exact h
  split
  · unfold searchOn
    split
    · exact h
    · intro _
      exact le_rfl
  · rename_i hss
    have hone : 1 ≤ w.bicSsCwnd := h (by simpa using hss)
    unfold slowStartOn
    dsimp only
    split <;> split
    · intro hf; cases hf
    · intro _
      change 1 ≤ 2 * w.bicSsCwnd
      omega
    · intro hf; cases hf
    · intro _
      exact hone

theorem Stepping.decreaseWindow (h : Stepping w) : Stepping (decreaseWindow u w) := by
  unfold TcpBic.decreaseWindow bicDecrease
  dsimp only
  split <;> split <;> exact h

theorem le_tcpIncrease (hw : 0 < w.cwnd) : w.cwnd ≤ tcpIncrease w := by
  unfold tcpIncrease
  split
  · exact le_add_of_nonneg_right zero_le_one
  · exact le_add_of_nonneg_right (div_nonneg zero_le_one hw.le)

theorem le_slowStart (hw : 0 < w.cwnd) (h : 1 ≤ w.bicSsCwnd) : w.cwnd ≤ w.cwnd + w.bicSsCwnd / w.cwnd := by
  have hpos : (0 : ℚ) ≤ w.bicSsCwnd := by exact_mod_cast zero_le_one.trans h
  exact le_add_of_nonneg_right (div_nonneg hpos hw.le)

/-- An acknowledgement is an increase, but for the measurement, which does not concern the window. -/
theorem acknowledge_eq (toUri : ℕ → String) (now : Time) (segNo : ℕ) (info : SegmentInfo) (k : ℕ) (w : Window) :
    ∃ rtt, acknowledge (scheme o u toUri) now segNo info k w = { increaseWindow w with rttEstimator := rtt } := by
  by_cases h : Measured info
  · exact ⟨_, if_pos h⟩
  · exact ⟨_, if_neg h⟩

/-- A loss leaves the window at 1 at least. -/
def WithstandsLoss (u : Unset) (w : Window) : Prop :=
  if u.resetToInitial then 1 ≤ u.initialWindow else if lowWindow ≤ w.cwnd then 1 ≤ w.cwnd * u.beta else 2 ≤ w.cwnd

/-- A binary search does not go for a target so far below the window that it ends below 1. The target
would be negative, which takes a negative `m_beta`. -/
def TargetInReach (w : Window) : Prop :=
  lowWindow ≤ w.cwnd → w.isBicSs = false → w.cwnd * (2 - w.cwnd) ≤ w.bicTargetWin

instance (u : Unset) : DecidablePred (WithstandsLoss u) := fun w =>
  inferInstanceAs (Decidable (if u.resetToInitial then 1 ≤ u.initialWindow
    else if lowWindow ≤ w.cwnd then 1 ≤ w.cwnd * u.beta else 2 ≤ w.cwnd))

instance : DecidablePred TargetInReach := fun _ => inferInstanceAs (Decidable (_ → _ → _))

theorem targetInReach_of_nonneg (h : 0 ≤ w.bicTargetWin) : TargetInReach w := by
  intro hlow _
  have hlow' : (14 : ℚ) ≤ w.cwnd := by exact_mod_cast hlow
  nlinarith only [h, hlow']

theorem one_le_searchIncrease_iff (hlow : lowWindow ≤ w.cwnd) (hss : w.isBicSs = false) :
    1 ≤ searchIncrease w ↔ TargetInReach w := by
  have hlow' : (14 : ℚ) ≤ w.cwnd := by exact_mod_cast hlow
  have hpos : 0 < w.cwnd := by linarith only [hlow']
  have hreach : TargetInReach w ↔ w.cwnd * (2 - w.cwnd) ≤ w.bicTargetWin := ⟨fun h => h hlow hss, fun h _ _ => h⟩
  rw [hreach]
  unfold searchIncrease
  split
  · have hsub : w.cwnd + (w.bicTargetWin - w.cwnd) / w.cwnd = w.cwnd - 1 + w.bicTargetWin / w.cwnd := by
      rw [sub_div, div_self hpos.ne']
      ring
    have hdiv : w.cwnd * (2 - w.cwnd) ≤ w.bicTargetWin ↔ 2 - w.cwnd ≤ w.bicTargetWin / w.cwnd := by
      rw [le_div_iff₀ hpos, mul_comm]
    rw [hsub, hdiv]
    constructor
    · intro h
      linarith only [h]
    · intro h
      linarith only [h]
  · rename_i hfar
    have hfar' : (16 : ℚ) ≤ w.bicTargetWin - w.cwnd := by exact_mod_cast not_lt.1 hfar
    have hstep : 0 ≤ (maxIncrement : ℚ) / w.cwnd := div_nonneg (by norm_num [maxIncrement]) hpos.le
    constructor
    · intro _
      nlinarith only [hfar', hlow']
    · intro _
      linarith only [hlow', hstep]

theorem one_le_increaseWindow_iff (hw : 1 ≤ w.cwnd) (hss : Stepping w) :
    1 ≤ (increaseWindow w).cwnd ↔ TargetInReach w := by
  have hpos : 0 < w.cwnd := lt_of_lt_of_le zero_lt_one hw
  rw [cwnd_increaseWindow]
  split
  · rename_i hlow
    exact ⟨fun _ hlow' => absurd hlow (not_lt.2 hlow'), fun _ => le_trans hw (le_tcpIncrease hpos)⟩
  · rename_i hlow
    split
    · rename_i hsearch
      exact one_le_searchIncrease_iff (not_lt.1 hlow) hsearch
    · rename_i hsearch
      have hstep : 1 ≤ w.bicSsCwnd := hss (by simpa using hsearch)
      exact ⟨fun _ _ hsearch' => absurd hsearch' hsearch, fun _ => le_trans hw (le_slowStart hpos hstep)⟩

theorem one_le_decreaseWindow_iff (u : Unset) (w : Window) : 1 ≤ (decreaseWindow u w).cwnd ↔ WithstandsLoss u w := by
  rw [cwnd_decreaseWindow]
  unfold WithstandsLoss
  split
  · exact_mod_cast Iff.rfl
  split
  · exact Iff.rfl
  · rw [le_div_iff₀ two_pos, one_mul]

/-- The window is open, and a slow start makes steps. -/
structure Wide (w : Window) : Prop where
  cwnd : 1 ≤ w.cwnd
  stepping : Stepping w

theorem keepsControl (toUri : ℕ → String) : KeepsControl (scheme o u toUri) Wide TargetInReach (WithstandsLoss u) := by
  constructor
  · intro w now segNo info k hw ha
    obtain ⟨rtt, heq⟩ := acknowledge_eq (o := o) (u := u) toUri now segNo info k w
    rw [heq]
    exact ⟨(one_le_increaseWindow_iff hw.cwnd hw.stepping).2 ha, hw.stepping.increaseWindow⟩
  · intro w now hw hl
    exact ⟨(one_le_decreaseWindow_iff u w).2 hl, hw.stepping.decreaseWindow⟩

end TcpBic

/-! ## Runs -/

/-- The windows of both pipelines stay open exactly if they withstand every loss that counts, and no
binary search goes below 1. -/
theorem stays_open_iff (cubeRoot : ℚ → ℚ) (oc : Cubic.Options) (ob : TcpBic.Options) (u : TcpBic.Unset)
    (rtt : RttEstimator.Options) (toUri : ℕ → String) (now : Time) (data : Data) (hc : 1 ≤ oc.initCwnd)
    (hb : 1 ≤ ob.initCwnd) (hstep : 0 ≤ oc.aiStep) :
    (∀ es, (machine (Cubic.scheme cubeRoot oc toUri)).Runs
        (run (Cubic.scheme cubeRoot oc toUri) now (Cubic.initial oc rtt) data) es →
      ((machine (Cubic.scheme cubeRoot oc toUri)).Always
          (fun s => Open (Cubic.scheme cubeRoot oc toUri) Cubic.Window.cwnd s.control)
          (run (Cubic.scheme cubeRoot oc toUri) now (Cubic.initial oc rtt) data) es ↔
        (machine (Cubic.scheme cubeRoot oc toUri)).Each
          (Finds (Cubic.scheme cubeRoot oc toUri) (fun _ => True) (Cubic.WithstandsLoss oc))
          (run (Cubic.scheme cubeRoot oc toUri) now (Cubic.initial oc rtt) data) es)) ∧
    (∀ es, (machine (TcpBic.scheme ob u toUri)).Runs
        (run (TcpBic.scheme ob u toUri) now (TcpBic.initial ob rtt) data) es →
      ((machine (TcpBic.scheme ob u toUri)).Always
          (fun s => Open (TcpBic.scheme ob u toUri) TcpBic.Window.cwnd s.control)
          (run (TcpBic.scheme ob u toUri) now (TcpBic.initial ob rtt) data) es ↔
        (machine (TcpBic.scheme ob u toUri)).Each
          (Finds (TcpBic.scheme ob u toUri) TcpBic.TargetInReach (TcpBic.WithstandsLoss u))
          (run (TcpBic.scheme ob u toUri) now (TcpBic.initial ob rtt) data) es)) := by
  constructor
  · intro es hr
    exact always_open_iff (fun _ => rfl) (Cubic.keepsControl toUri hstep) (fun hw => hw)
      (fun _ _ _ _ _ _ => trivial) (fun _ _ h => h) hc hr
  · intro es hr
    refine always_open_iff (fun _ => rfl) (TcpBic.keepsControl toUri) (fun hw => hw.cwnd) ?_ ?_
      ⟨hb, fun h => by cases h⟩ hr
    · intro w now segNo info k hw hle
      obtain ⟨rtt, heq⟩ := TcpBic.acknowledge_eq (o := ob) (u := u) toUri now segNo info k w
      rw [heq] at hle
      exact (TcpBic.one_le_increaseWindow_iff hw.cwnd hw.stepping).1 hle
    · intro w now _ hle
      exact (TcpBic.one_le_decreaseWindow_iff u w).1 hle

/-- A cubic pipeline with default options but for `disableCwa`. -/
def Cubic.pipeline (disableCwa : Bool) : Scheme Cubic.Window :=
  Cubic.scheme (fun q => q) { Cubic.Options.default with disableCwa := disableCwa } fun n => "/data/" ++ toString n

def Cubic.started (disableCwa : Bool) (data : Data) : Adaptive Cubic.Window :=
  run (Cubic.pipeline disableCwa) 0
    (Cubic.initial { Cubic.Options.default with disableCwa := disableCwa } .default) data

/-- A pipeline that finds `m_beta` at 4/5 and `resetToInitial` at `false`. -/
def TcpBic.pipeline : Scheme TcpBic.Window :=
  TcpBic.scheme .default ⟨4 / 5, false, 0⟩ fun n => "/data/" ++ toString n

def TcpBic.started (data : Data) : Adaptive TcpBic.Window :=
  run TcpBic.pipeline 0 (TcpBic.initial .default .default) data

/-- After a packet the window is 2. Segments 2 and 3 time out, and 2 is sent again and arrives. -/
def lossOfTwo : List Event := [.data 10 1 (packet 1 none), .checkRto 5000 [2, 3], .data 5010 4 (packet 2 none)]

/-- A window of 2 withstands the loss: it goes to 8/5, or to 1. -/
theorem stays_open_iff_loss :
    (machine (Cubic.pipeline false)).Always (fun s => Open (Cubic.pipeline false) Cubic.Window.cwnd s.control)
      (Cubic.started false (packet 0 none)) lossOfTwo ∧
    (machine TcpBic.pipeline).Always (fun s => Open TcpBic.pipeline TcpBic.Window.cwnd s.control)
      (TcpBic.started (packet 0 none)) lossOfTwo := by
  obtain ⟨hcubic, hbic⟩ := stays_open_iff (fun q => q) .default .default ⟨4 / 5, false, 0⟩ .default
    (fun n => "/data/" ++ toString n) 0 (packet 0 none) le_rfl le_rfl zero_le_one
  exact ⟨(hcubic lossOfTwo (by decide +kernel)).2 (by decide +kernel),
    (hbic lossOfTwo (by decide +kernel)).2 (by decide +kernel)⟩

/-- The first Interest of a pipeline times out, and the window goes from 1 to 4/5. Nothing is in flight
and segment 1 is queued, but `schedulePackets` does nothing. -/
theorem first_timeout_closes :
    (machine (Cubic.pipeline true)).Runs (Cubic.started true (packet 0 none)) [.checkRto 2000 [1]] ∧
      ¬ (machine (Cubic.pipeline true)).Always (fun s => Open (Cubic.pipeline true) Cubic.Window.cwnd s.control)
        (Cubic.started true (packet 0 none)) [.checkRto 2000 [1]] := by
  refine ⟨by decide +kernel, fun h => ?_⟩
  have hsends := (Machine.always_last _ _ h).sends (by decide +kernel)
  obtain ⟨a, ha, -⟩ := hsends _ 2000 rfl (by decide +kernel) (by decide +kernel)
  have hsilent : attempts (Cubic.pipeline true) 2000
      ((machine (Cubic.pipeline true)).exec (Cubic.started true (packet 0 none)) [.checkRto 2000 [1]]) = [] := by
    decide +kernel
  rw [hsilent] at ha
  cases ha

end NdnTools.Chunks.Adaptive
