/-
How far `PipelineInterestsCubic` moves its window. The cube root that begins an epoch is not rational, so
the two operations are written here over any ordered field, of which the model of the pipeline is the
case of the rationals (`ofWindow_increaseWindow`, `ofWindow_decreaseWindow`). The clock is read twice
in `cubicUpdate`.
-/
import NdnTools.Chunks.Adaptive.Cubic
import Mathlib.Analysis.SpecialFunctions.Pow.Real

namespace NdnTools.Chunks.Adaptive.Cubic

/-- The options that the operations read. -/
structure CurveOptions (F : Type*) where
  aiStep : F
  cubicScale : F
  cubicBeta : F
  cubicFastConvergence : Bool
  cubicTcpFriendliness : Bool

/-- The variables that the operations read; those that may be no number are optional. -/
@[ext] structure Curve (F : Type*) where
  cwnd : F
  ssthresh : F
  cubicEpochStart : F
  cubicLastMaxCwnd : F
  cubicK : F
  cubicOriginPoint : F
  cubicTcpCwnd : Option F
  cubicMinRtt : Option F
  sRtt : Option F

namespace Curve

variable {F : Type*} [Field F] [LinearOrder F]

/-- `a < b`, where either may not be a number. -/
def less : Option F → Option F → Prop
  | some a, some b => a < b
  | _, _ => False

instance : (a b : Option F) → Decidable (less a b)
  | some a, some b => inferInstanceAs (Decidable (a < b))
  | none, _ | some _, none => .isFalse id

variable (cubeRoot : F → F) (o : CurveOptions F)

/-- The argument of the cube root. -/
def rootArgument (w : Curve F) : F := (w.cubicLastMaxCwnd - w.cwnd) / o.cubicScale

def startEpoch (now : F) (w : Curve F) : Curve F :=
  if w.cubicEpochStart = 0 then
    { w with
      cubicEpochStart := now
      cubicK := if w.cwnd < w.cubicLastMaxCwnd then cubeRoot (rootArgument o w) else 0
      cubicOriginPoint := if w.cwnd < w.cubicLastMaxCwnd then w.cubicLastMaxCwnd else w.cwnd
      cubicTcpCwnd := some w.cwnd }
  else w

/-- `t` of `cubicUpdate`. -/
def elapsed (now : F) (w : Curve F) : Option F := w.cubicMinRtt.map fun rtt => now - w.cubicEpochStart + rtt

def target (now : F) (w : Curve F) : Option F :=
  (elapsed now w).map fun t => w.cubicOriginPoint + o.cubicScale * (t / 1000 - w.cubicK) ^ 3

def tcpGrowth (now : F) (w : Curve F) : Option F :=
  match w.cubicTcpCwnd, elapsed now w, w.sRtt with
  | some tcpCwnd, some t, some sRtt => some (tcpCwnd + 3 * o.cubicBeta / (2 - o.cubicBeta) * (t / sRtt))
  | _, _, _ => none

def towards (w : Curve F) (goal : Option F) : F :=
  match goal with
  | some goal => w.cwnd + (goal - w.cwnd) / w.cwnd
  | none => w.cwnd

/-- `now` is the time at which an epoch starts, `now'` the time the update is for. -/
def cubicUpdate (now now' : F) (w : Curve F) : Curve F :=
  let w := startEpoch cubeRoot o now w
  let target := target o now' w
  let update := if less (some w.cwnd) target then towards w target else w.cwnd + 1 / 100 / w.cwnd
  if o.cubicTcpFriendliness then
    let tcpCwnd := tcpGrowth o now' w
    { w with
      cubicTcpCwnd := tcpCwnd
      cwnd := if less (some w.cwnd) tcpCwnd ∧ less target tcpCwnd then towards w tcpCwnd else update }
  else { w with cwnd := update }

def increaseWindow (now now' : F) (w : Curve F) : Curve F :=
  if w.cwnd < w.ssthresh then { w with cwnd := w.cwnd + o.aiStep } else cubicUpdate cubeRoot o now now' w

def decreaseWindow (w : Curve F) : Curve F :=
  { w with
    cubicEpochStart := 0
    cubicLastMaxCwnd :=
      if w.cwnd < w.cubicLastMaxCwnd ∧ o.cubicFastConvergence then w.cwnd * (2 - o.cubicBeta) / 2 else w.cwnd
    cwnd := w.cwnd * (1 - o.cubicBeta)
    ssthresh := max 2 (w.cwnd * (1 - o.cubicBeta)) }

end Curve

/-! ## The model of the pipeline -/

def ofWindow (w : Window) : Curve ℚ :=
  ⟨w.cwnd, w.ssthresh, w.cubicEpochStart, w.cubicLastMaxCwnd, w.cubicK, w.cubicOriginPoint, w.cubicTcpCwnd,
    w.cubicMinRtt, w.rttEstimator.sRtt⟩

def ofOptions (o : Options) : CurveOptions ℚ :=
  ⟨o.aiStep, o.cubicScale, o.cubicBeta, o.cubicFastConvergence, o.cubicTcpFriendliness⟩

theorem less_eq (a b : Option ℚ) : Curve.less a b ↔ less a b := by
  cases a <;> cases b <;> rfl

theorem ofWindow_startEpoch (cubeRoot : ℚ → ℚ) (o : Options) (now : Time) (w : Window) :
    ofWindow (startEpoch cubeRoot o now w) = (ofWindow w).startEpoch cubeRoot (ofOptions o) now := by
  unfold startEpoch Curve.startEpoch
  by_cases h : w.cubicEpochStart = 0
  · rw [if_pos h, if_pos (show (ofWindow w).cubicEpochStart = 0 from h)]
    rfl
  · rw [if_neg h, if_neg (show ¬ (ofWindow w).cubicEpochStart = 0 from h)]

theorem ofWindow_tcpGrowth (o : Options) (now : Time) (w : Window) :
    tcpGrowth o now w = Curve.tcpGrowth (ofOptions o) now (ofWindow w) := by
  unfold tcpGrowth Curve.tcpGrowth
  rw [show elapsed now w = Curve.elapsed now (ofWindow w) from rfl]
  cases h : w.cubicTcpCwnd <;> cases h' : w.rttEstimator.sRtt <;> cases h'' : Curve.elapsed now (ofWindow w) <;>
    simp [ofWindow, ofOptions, h, h']

theorem ofWindow_towards (w : Window) (goal : Option ℚ) : towards w goal = (ofWindow w).towards goal := by
  cases goal <;> rfl

theorem ofWindow_cubicUpdate (cubeRoot : ℚ → ℚ) (o : Options) (now : Time) (w : Window) :
    ofWindow (cubicUpdate cubeRoot o now w) = (ofWindow w).cubicUpdate cubeRoot (ofOptions o) now now := by
  unfold cubicUpdate Curve.cubicUpdate
  rw [← ofWindow_startEpoch]
  generalize startEpoch cubeRoot o now w = w
  dsimp only
  simp only [ofWindow_tcpGrowth, ofWindow_towards]
  have hupdate := if_congr (less_eq (some w.cwnd) (target o now w)).symm
    (rfl : (ofWindow w).towards (target o now w) = _) (rfl : w.cwnd + 1 / 100 / w.cwnd = _)
  by_cases hf : o.cubicTcpFriendliness = true
  · rw [if_pos hf, if_pos (show (ofOptions o).cubicTcpFriendliness = true from hf)]
    ext : 1 <;> try rfl
    exact if_congr (and_congr (less_eq _ _).symm (less_eq _ _).symm) rfl hupdate
  · rw [if_neg hf, if_neg (show ¬ (ofOptions o).cubicTcpFriendliness = true from hf)]
    ext : 1 <;> try rfl
    exact hupdate

theorem ofWindow_increaseWindow (cubeRoot : ℚ → ℚ) (o : Options) (now : Time) (w : Window) :
    ofWindow (increaseWindow cubeRoot o now w) = (ofWindow w).increaseWindow cubeRoot (ofOptions o) now now := by
  unfold increaseWindow Curve.increaseWindow
  by_cases h : w.cwnd < w.ssthresh
  · rw [if_pos h, if_pos (show (ofWindow w).cwnd < (ofWindow w).ssthresh from h)]
    rfl
  · rw [if_neg h, if_neg (show ¬ (ofWindow w).cwnd < (ofWindow w).ssthresh from h)]
    exact ofWindow_cubicUpdate cubeRoot o now w

theorem ofWindow_decreaseWindow (o : Options) (w : Window) :
    ofWindow (decreaseWindow o w) = (ofWindow w).decreaseWindow (ofOptions o) := rfl

/-! ## How far the window moves -/

namespace Curve

variable {F : Type*} [LinearOrder F]

/-- The larger of `a` and the goal, if that is a number. -/
def orGoal (goal : Option F) (a : F) : F := goal.elim a (max a)

theorem le_orGoal (goal : Option F) (a : F) : a ≤ orGoal goal a := by
  cases goal with
  | none => exact le_rfl
  | some goal => exact le_max_left a goal

theorem goal_le_orGoal (goal a : F) : goal ≤ orGoal (some goal) a := le_max_right a goal

variable [Field F]

@[simp] theorem cwnd_startEpoch (cubeRoot : F → F) (o : CurveOptions F) (now : F) (w : Curve F) :
    (startEpoch cubeRoot o now w).cwnd = w.cwnd := by
  unfold startEpoch
  split <;> rfl

variable [IsStrictOrderedRing F] {o : CurveOptions F} {w : Curve F}

/-- A step towards a goal above the window is a positive part of the way. -/
theorem towards_bounds {goal : F} (hw : 1 ≤ w.cwnd) (h : w.cwnd < goal) :
    w.cwnd < towards w (some goal) ∧ towards w (some goal) ≤ goal := by
  have hpos : 0 < goal - w.cwnd := sub_pos.2 h
  constructor
  · exact lt_add_of_pos_right _ (div_pos hpos (lt_of_lt_of_le zero_lt_one hw))
  · have hpart : (goal - w.cwnd) / w.cwnd ≤ goal - w.cwnd := div_le_self hpos.le hw
    exact add_le_of_le_sub_left hpart

theorem increment_bounds (hw : 1 ≤ w.cwnd) :
    w.cwnd < w.cwnd + 1 / 100 / w.cwnd ∧ w.cwnd + 1 / 100 / w.cwnd ≤ w.cwnd + 1 / 100 := by
  have hpos : (0 : F) < 1 / 100 := by positivity
  constructor
  · exact lt_add_of_pos_right _ (div_pos hpos (lt_of_lt_of_le zero_lt_one hw))
  · exact add_le_add_right (div_le_self hpos.le hw) _

/-- `cubic_update` before the friendliness to TCP. -/
theorem update_bounds (goal : Option F) (hw : 1 ≤ w.cwnd) :
    let update := if less (some w.cwnd) goal then towards w goal else w.cwnd + 1 / 100 / w.cwnd
    w.cwnd < update ∧ update ≤ orGoal goal (w.cwnd + 1 / 100) := by
  dsimp only
  split
  · cases goal with
    | none => contradiction
    | some goal =>
      obtain ⟨hlt, hle⟩ := towards_bounds hw (by assumption)
      exact ⟨hlt, hle.trans (goal_le_orGoal goal _)⟩
  · obtain ⟨hlt, hle⟩ := increment_bounds hw
    exact ⟨hlt, hle.trans (le_orGoal goal _)⟩

/-- The window that `cubicUpdate` may not pass: the curve, the estimate for TCP and a small increment. -/
def ceiling (cubeRoot : F → F) (o : CurveOptions F) (now now' : F) (w : Curve F) : F :=
  orGoal (cubicUpdate cubeRoot o now now' w).cubicTcpCwnd
    (orGoal (target o now' (startEpoch cubeRoot o now w)) (w.cwnd + 1 / 100))

theorem cubicUpdate_bounds (cubeRoot : F → F) (o : CurveOptions F) (now now' : F) (hw : 1 ≤ w.cwnd) :
    w.cwnd < (cubicUpdate cubeRoot o now now' w).cwnd ∧
      (cubicUpdate cubeRoot o now now' w).cwnd ≤ ceiling cubeRoot o now now' w := by
  unfold ceiling
  rw [← cwnd_startEpoch cubeRoot o now w] at hw ⊢
  unfold cubicUpdate
  dsimp only
  generalize startEpoch cubeRoot o now w = w at hw ⊢
  obtain ⟨hlt, hle⟩ := update_bounds (target o now' w) hw
  split
  · dsimp only
    generalize tcpGrowth o now' w = tcpCwnd
    split
    · rename_i h
      cases tcpCwnd with
      | none => exact False.elim h.1
      | some tcpCwnd =>
        obtain ⟨hlt, hle⟩ := towards_bounds hw h.1
        exact ⟨hlt, hle.trans (goal_le_orGoal tcpCwnd _)⟩
    · exact ⟨hlt, hle.trans (le_orGoal tcpCwnd _)⟩
  · exact ⟨hlt, hle.trans (le_orGoal w.cubicTcpCwnd _)⟩

theorem lt_increaseWindow (cubeRoot : F → F) (now now' : F) (hw : 1 ≤ w.cwnd) (hstep : 0 < o.aiStep) :
    w.cwnd < (increaseWindow cubeRoot o now now' w).cwnd := by
  unfold increaseWindow
  split
  · exact lt_add_of_pos_right _ hstep
  · exact (cubicUpdate_bounds cubeRoot o now now' hw).1

theorem rootArgument_pos (hscale : 0 < o.cubicScale) (h : w.cwnd < w.cubicLastMaxCwnd) : 0 < rootArgument o w :=
  div_pos (sub_pos.2 h) hscale

/-- Only cube roots of positive numbers are taken. -/
theorem increaseWindow_congr {cubeRoot cubeRoot' : F → F} (hscale : 0 < o.cubicScale) (now now' : F) (w : Curve F)
    (heq : ∀ x, 0 < x → cubeRoot x = cubeRoot' x) :
    increaseWindow cubeRoot o now now' w = increaseWindow cubeRoot' o now now' w := by
  have hstart : startEpoch cubeRoot o now w = startEpoch cubeRoot' o now w := by
    unfold startEpoch
    by_cases h : w.cwnd < w.cubicLastMaxCwnd
    · rw [heq _ (rootArgument_pos hscale h)]
    · simp only [if_neg h]
  unfold increaseWindow cubicUpdate
  rw [hstart]

theorem decreaseWindow_lt (hw : 1 ≤ w.cwnd) (hbeta : 0 < o.cubicBeta) : (decreaseWindow o w).cwnd < w.cwnd := by
  have hpos : 0 < w.cwnd := lt_of_lt_of_le zero_lt_one hw
  calc w.cwnd * (1 - o.cubicBeta) < w.cwnd * 1 := mul_lt_mul_of_pos_left (sub_lt_self 1 hbeta) hpos
    _ = w.cwnd := mul_one _

theorem decreaseWindow_cubicLastMaxCwnd_le (hw : 1 ≤ w.cwnd) (hbeta : 0 < o.cubicBeta) :
    (decreaseWindow o w).cubicLastMaxCwnd ≤ w.cwnd := by
  unfold decreaseWindow
  dsimp only
  split
  · have hpos : 0 < w.cwnd := lt_of_lt_of_le zero_lt_one hw
    have hmul : w.cwnd * (2 - o.cubicBeta) ≤ w.cwnd * 2 :=
      mul_le_mul_of_nonneg_left (sub_le_self 2 hbeta.le) hpos.le
    exact (div_le_iff₀ zero_lt_two).2 hmul
  · exact le_rfl

/-- The bounds of the growth and of the back-off of a window, for every cube root and both readings of the clock. -/
theorem increaseWindow_decreaseWindow_bounds (cubeRoot : F → F) (o : CurveOptions F) (now now' : F) (w : Curve F)
    (hw : 1 ≤ w.cwnd) (hbeta : 0 < o.cubicBeta ∧ o.cubicBeta < 1) (hscale : 0 < o.cubicScale)
    (hstep : 0 < o.aiStep) :
    w.cwnd < (increaseWindow cubeRoot o now now' w).cwnd ∧
    (¬ w.cwnd < w.ssthresh →
      (increaseWindow cubeRoot o now now' w).cwnd ≤
        orGoal (increaseWindow cubeRoot o now now' w).cubicTcpCwnd
          (orGoal (target o now' (startEpoch cubeRoot o now w)) (w.cwnd + 1 / 100))) ∧
    (w.cwnd < w.cubicLastMaxCwnd → 0 < rootArgument o w) ∧
    (∀ cubeRoot' : F → F, (∀ x, 0 < x → cubeRoot x = cubeRoot' x) →
      increaseWindow cubeRoot o now now' w = increaseWindow cubeRoot' o now now' w) ∧
    (decreaseWindow o w).cwnd < w.cwnd ∧
    (decreaseWindow o w).cubicLastMaxCwnd ≤ w.cwnd := by
  refine ⟨lt_increaseWindow cubeRoot now now' hw hstep, fun h => ?_, rootArgument_pos hscale,
    fun _ heq => increaseWindow_congr hscale now now' w heq, decreaseWindow_lt hw hbeta.1,
    decreaseWindow_cubicLastMaxCwnd_le hw hbeta.1⟩
  unfold increaseWindow
  rw [if_neg h]
  exact (cubicUpdate_bounds cubeRoot o now now' hw).2

/-- Below the last maximum, at the start of an epoch, with the real cube root. -/
theorem increaseWindow_decreaseWindow_bounds_real :
    let cubeRoot : ℝ → ℝ := fun x => x ^ (1 / 3 : ℝ)
    let o : CurveOptions ℝ := ⟨1, 2 / 5, 1 / 5, true, true⟩
    let w : Curve ℝ := ⟨4, 2, 0, 5, 0, 0, some 0, some 10, some 12⟩
    w.cwnd < (increaseWindow cubeRoot o 1000 1001 w).cwnd ∧ 0 < rootArgument o w ∧
      (decreaseWindow o w).cwnd < 4 ∧ (decreaseWindow o w).cubicLastMaxCwnd ≤ 4 := by
  intro cubeRoot o w
  have hw : (1 : ℝ) ≤ 4 := by norm_num
  have hbeta : (0 : ℝ) < 1 / 5 ∧ (1 / 5 : ℝ) < 1 := by norm_num
  have hscale : (0 : ℝ) < 2 / 5 := by norm_num
  obtain ⟨hlt, _, hroot, _, hdec, hmax⟩ :=
    increaseWindow_decreaseWindow_bounds cubeRoot o 1000 1001 w hw hbeta hscale zero_lt_one
  exact ⟨hlt, hroot (show (4 : ℝ) < 5 by norm_num), hdec, hmax⟩

end Curve

/-! ## The model of the pipeline again -/

section
variable {cubeRoot : ℚ → ℚ} {o : Options} {w : Window}

theorem lt_cubicUpdate (now : Time) (hw : 1 ≤ w.cwnd) : w.cwnd < (cubicUpdate cubeRoot o now w).cwnd := by
  have hlt : (ofWindow w).cwnd < _ := (Curve.cubicUpdate_bounds cubeRoot (ofOptions o) now now hw).1
  rw [← ofWindow_cubicUpdate] at hlt
  exact hlt

/-- Every increase is one. -/
theorem lt_increaseWindow (now : Time) (hw : 1 ≤ w.cwnd) (hstep : 0 < o.aiStep) :
    w.cwnd < (increaseWindow cubeRoot o now w).cwnd := by
  have hlt : (ofWindow w).cwnd < _ := Curve.lt_increaseWindow (o := ofOptions o) cubeRoot now now hw hstep
  rw [← ofWindow_increaseWindow] at hlt
  exact hlt

end

end NdnTools.Chunks.Adaptive.Cubic
