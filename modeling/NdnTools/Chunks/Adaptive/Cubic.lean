/-
The congestion control of `PipelineInterestsCubic`, in exact arithmetic, and the pipeline as a
`Scheme`. `none` stands for a number that is not one: `m_cubicMinRtt` before the first measurement and
what is computed from it; a comparison with it fails. The epoch starts at 0 when there is none.

The cube root `std::pow(_, 1.0 / 3)` is not rational, so it is a parameter; round-trip times are taken
to be positive.
-/
import NdnTools.Chunks.Adaptive.Aimd

namespace NdnTools.Chunks.Adaptive.Cubic

structure Options where
  initCwnd : ℚ
  initSsthresh : ℚ
  aiStep : ℚ
  disableCwa : Bool
  cubicScale : ℚ
  cubicBeta : ℚ
  cubicFastConvergence : Bool
  cubicTcpFriendliness : Bool
  maxRetriesOnTimeoutOrNack : ℤ
  deriving Repr, DecidableEq

structure Window where
  cwnd : ℚ
  ssthresh : ℚ
  cubicEpochStart : Time
  cubicLastMaxCwnd : ℚ
  cubicK : ℚ
  cubicOriginPoint : ℚ
  cubicTcpCwnd : Option ℚ
  cubicMinRtt : Option Time
  rttEstimator : RttEstimator
  deriving Repr, DecidableEq

/-- `a < b`, where either may not be a number. -/
def less : Option ℚ → Option ℚ → Prop
  | some a, some b => a < b
  | _, _ => False

instance : (a b : Option ℚ) → Decidable (less a b)
  | some a, some b => inferInstanceAs (Decidable (a < b))
  | none, _ | some _, none => .isFalse id

variable (cubeRoot : ℚ → ℚ) (o : Options)

/-- The first statement of `cubicUpdate`: a new congestion avoidance epoch. -/
def startEpoch (now : Time) (w : Window) : Window :=
  if w.cubicEpochStart = 0 then
    { w with
      cubicEpochStart := now
      cubicK := if w.cwnd < w.cubicLastMaxCwnd then cubeRoot ((w.cubicLastMaxCwnd - w.cwnd) / o.cubicScale) else 0
      cubicOriginPoint := if w.cwnd < w.cubicLastMaxCwnd then w.cubicLastMaxCwnd else w.cwnd
      cubicTcpCwnd := some w.cwnd }
  else w

/-- `t` of `cubicUpdate`. -/
def elapsed (now : Time) (w : Window) : Option Time := w.cubicMinRtt.map fun rtt => now - w.cubicEpochStart + rtt

def target (now : Time) (w : Window) : Option ℚ :=
  (elapsed now w).map fun t => w.cubicOriginPoint + o.cubicScale * (t / 1000 - w.cubicK) ^ 3

/-- `m_cubicTcpCwnd` after the window of TCP has grown. -/
def tcpGrowth (now : Time) (w : Window) : Option ℚ :=
  match w.cubicTcpCwnd, elapsed now w, w.rttEstimator.sRtt with
  | some tcpCwnd, some t, some sRtt => some (tcpCwnd + 3 * o.cubicBeta / (2 - o.cubicBeta) * (t / sRtt))
  | _, _, _ => none

/-- The window towards which `cubicUpdate` goes, if it is above the present one. -/
def towards (w : Window) (goal : Option ℚ) : ℚ :=
  match goal with
  | some goal => w.cwnd + (goal - w.cwnd) / w.cwnd
  | none => w.cwnd

def cubicUpdate (now : Time) (w : Window) : Window :=
  let w := startEpoch cubeRoot o now w
  let target := target o now w
  -- only a small increment when the target is reached
  let update := if less (some w.cwnd) target then towards w target else w.cwnd + 1 / 100 / w.cwnd
  if o.cubicTcpFriendliness then
    let tcpCwnd := tcpGrowth o now w
    { w with
      cubicTcpCwnd := tcpCwnd
      cwnd := if less (some w.cwnd) tcpCwnd ∧ less target tcpCwnd then towards w tcpCwnd else update }
  else { w with cwnd := update }

def increaseWindow (now : Time) (w : Window) : Window :=
  if w.cwnd < w.ssthresh then { w with cwnd := w.cwnd + o.aiStep } else cubicUpdate cubeRoot o now w

def decreaseWindow (w : Window) : Window :=
  { w with
    cubicEpochStart := 0
    cubicLastMaxCwnd :=
      if w.cwnd < w.cubicLastMaxCwnd ∧ o.cubicFastConvergence then w.cwnd * (2 - o.cubicBeta) / 2 else w.cwnd
    cwnd := w.cwnd * (1 - o.cubicBeta)
    ssthresh := max 2 (w.cwnd * (1 - o.cubicBeta)) }

/-- The sample of the round-trip time goes to the estimator and to `m_cubicMinRtt`. -/
def addMeasurement (rtt : Time) (nExpectedSamples : ℕ) (w : Window) : Window :=
  { w with
    rttEstimator := w.rttEstimator.addMeasurement rtt nExpectedSamples
    cubicMinRtt := match w.cubicMinRtt with
      | some minRtt => some (min minRtt rtt)
      | none => some rtt }

def control : Control Window where
  cwnd w := Aimd.toInt w.cwnd
  increaseWindow := increaseWindow cubeRoot o
  decreaseWindow _ := decreaseWindow o
  backoffRto w := { w with rttEstimator := w.rttEstimator.backoffRto }
  getEstimatedRto w := w.rttEstimator.rto
  addMeasurement _ _ := addMeasurement

/-- `PipelineInterestsCubic`; `toUri` gives the URI of the Interest for a segment. -/
def scheme (toUri : ℕ → String) : Scheme Window where
  toControl := control cubeRoot o
  isCubic := true
  maxRetriesOnTimeoutOrNack := o.maxRetriesOnTimeoutOrNack
  disableCwa := o.disableCwa
  toUri := toUri

/-- The members as they are constructed. -/
def initial (rtt : RttEstimator.Options) : Window where
  cwnd := o.initCwnd
  ssthresh := o.initSsthresh
  cubicEpochStart := 0
  cubicLastMaxCwnd := 0
  cubicK := 0
  cubicOriginPoint := 0
  cubicTcpCwnd := some 0
  cubicMinRtt := none
  rttEstimator := .create rtt

/-- The default options; the threshold is the largest `double`. -/
def Options.default : Options where
  initCwnd := 1
  initSsthresh := ((2 ^ 1024 - 2 ^ 971 : ℕ) : ℚ)
  aiStep := 1
  disableCwa := false
  cubicScale := 2 / 5
  cubicBeta := 1 / 5
  cubicFastConvergence := true
  cubicTcpFriendliness := false
  maxRetriesOnTimeoutOrNack := 3

end NdnTools.Chunks.Adaptive.Cubic
