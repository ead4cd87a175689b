/-
The congestion control of `PipelineInterestsTcpBic`, in exact arithmetic, and the pipeline as a
`Scheme`. The constructor gives no value to `m_beta`, `resetToInitial` and `m_initialWindow`; they are
`Unset`, with any value.
-/
import NdnTools.Chunks.Adaptive.Aimd

namespace NdnTools.Chunks.Adaptive.TcpBic

structure Options where
  initCwnd : ℚ
  initSsthresh : ℚ
  disableCwa : Bool
  maxRetriesOnTimeoutOrNack : ℤ
  deriving Repr, DecidableEq

/-- The members without an initial value; no operation changes them. -/
structure Unset where
  beta : ℚ
  resetToInitial : Bool
  initialWindow : ℤ
  deriving Repr, DecidableEq

structure Window where
  cwnd : ℚ
  ssthresh : ℚ
  isBicSs : Bool
  bicTargetWin : ℚ
  bicMinWin : ℚ
  bicMaxWin : ℚ
  bicSsCwnd : ℤ
  bicSsTarget : ℤ
  rttEstimator : RttEstimator
  deriving Repr, DecidableEq

def maxIncrement : ℤ := 16

def maxInt : ℤ := 2 ^ 31 - 1

def lowWindow : ℤ := 14

/-- `m_cwnd` after an increase in the regime of normal TCP. -/
def tcpIncrease (w : Window) : ℚ := if w.cwnd ≤ w.ssthresh then w.cwnd + 1 else w.cwnd + 1 / w.cwnd

/-- `m_cwnd` after a binary search or an additive increase. -/
def searchIncrease (w : Window) : ℚ :=
  if w.bicTargetWin - w.cwnd < maxIncrement then w.cwnd + (w.bicTargetWin - w.cwnd) / w.cwnd
  else w.cwnd + maxIncrement / w.cwnd

/-- The second half of the binary increase: the search goes on, or the slow start begins. -/
def searchOn (w : Window) : Window :=
  if w.cwnd + 1 / 100000 < w.bicMaxWin then
    { w with bicMinWin := w.cwnd, bicTargetWin := (w.bicMaxWin + w.cwnd) / 2 }
  else
    { w with
      isBicSs := true
      bicSsCwnd := 1
      bicSsTarget := Aimd.toInt (w.cwnd + 1)
      bicMaxWin := maxInt }

/-- The second half of the slow start: its step doubles, and it ends with the step at its maximum. -/
def slowStartOn (w : Window) : Window :=
  let w :=
    if w.bicSsTarget ≤ w.cwnd then
      { w with bicSsCwnd := 2 * w.bicSsCwnd, bicSsTarget := Aimd.toInt (w.cwnd + 2 * w.bicSsCwnd) }
    else w
  if maxIncrement ≤ w.bicSsCwnd then { w with isBicSs := false } else w

def increaseWindow (w : Window) : Window :=
  if w.cwnd < lowWindow then { w with cwnd := tcpIncrease w }
  else if w.isBicSs = false then searchOn { w with cwnd := searchIncrease w }
  else slowStartOn { w with cwnd := w.cwnd + w.bicSsCwnd / w.cwnd }

/-- The decrease at or above `LOW_WINDOW`. -/
def bicDecrease (u : Unset) (w : Window) : Window :=
  let minWin := w.cwnd * u.beta
  -- fast convergence
  let maxWin := if w.cwnd < w.bicMaxWin then (w.cwnd + minWin) / 2 else w.cwnd
  { w with cwnd := minWin, bicMinWin := minWin, bicMaxWin := maxWin, bicTargetWin := (maxWin + minWin) / 2 }

def decreaseWindow (u : Unset) (w : Window) : Window :=
  let w := if lowWindow ≤ w.cwnd then bicDecrease u w else { w with ssthresh := w.cwnd / 2, cwnd := w.cwnd / 2 }
  if u.resetToInitial then { w with ssthresh := w.cwnd / 2, cwnd := u.initialWindow } else w

def control (u : Unset) : Control Window where
  cwnd w := Aimd.toInt w.cwnd
  increaseWindow _ := increaseWindow
  decreaseWindow _ := decreaseWindow u
  backoffRto w := { w with rttEstimator := w.rttEstimator.backoffRto }
  getEstimatedRto w := w.rttEstimator.rto
  addMeasurement _ _ rtt nExpectedSamples w :=
    { w with rttEstimator := w.rttEstimator.addMeasurement rtt nExpectedSamples }

/-- `PipelineInterestsTcpBic`; `toUri` gives the URI of the Interest for a segment. -/
def scheme (o : Options) (u : Unset) (toUri : ℕ → String) : Scheme Window where
  toControl := control u
  isCubic := false
  maxRetriesOnTimeoutOrNack := o.maxRetriesOnTimeoutOrNack
  disableCwa := o.disableCwa
  toUri := toUri

/-- The members as they are constructed. -/
def initial (o : Options) (rtt : RttEstimator.Options) : Window where
  cwnd := o.initCwnd
  ssthresh := o.initSsthresh
  isBicSs := false
  bicTargetWin := 0
  bicMinWin := 0
  bicMaxWin := maxInt
  bicSsCwnd := 0
  bicSsTarget := 0
  rttEstimator := .create rtt

/-- The default options; the threshold is the largest `double`. -/
def Options.default : Options where
  initCwnd := 1
  initSsthresh := ((2 ^ 1024 - 2 ^ 971 : ℕ) : ℚ)
  disableCwa := false
  maxRetriesOnTimeoutOrNack := 3

end NdnTools.Chunks.Adaptive.TcpBic
