/-
The congestion control of `PipelineInterestsAimd` with its `RttEstimator`, in exact arithmetic, and
the pipeline as a `Scheme`. `m_sRtt` and `m_rttVar` are not a number before the first measurement.
-/
import NdnTools.Chunks.Adaptive.Model
import Mathlib.Algebra.Order.Field.Rat
import Mathlib.Algebra.Order.Group.Abs

namespace NdnTools.Chunks.Adaptive

/-! ## The round-trip time estimator -/

structure RttEstimator.Options where
  alpha : ℚ
  beta : ℚ
  k : ℤ
  initialRto : Time
  minRto : Time
  maxRto : Time
  rtoBackoffMultiplier : ℤ
  deriving Repr, DecidableEq

/-- The defaults. -/
def RttEstimator.Options.default : RttEstimator.Options := ⟨1 / 8, 1 / 4, 4, 1000, 200, 20000, 2⟩

structure RttEstimator where
  options : RttEstimator.Options
  sRtt : Option Time
  rttVar : Option Time
  rto : Time
  deriving Repr, DecidableEq

namespace RttEstimator

def create (options : Options) : RttEstimator := ⟨options, none, none, options.initialRto⟩

/-- `ndn::clamp` -/
def clamp (v lo hi : Time) : Time := if v < lo then lo else if hi < v then hi else v

def addMeasurement (rtt : Time) (nExpectedSamples : ℕ) (e : RttEstimator) : RttEstimator :=
  let (sRtt, rttVar) :=
    match e.sRtt, e.rttVar with
    | some sRtt, some rttVar =>
      let alpha := e.options.alpha / nExpectedSamples
      let beta := e.options.beta / nExpectedSamples
      ((1 - alpha) * sRtt + alpha * rtt, (1 - beta) * rttVar + beta * |sRtt - rtt|)
    | _, _ => (rtt, rtt / 2)
  { e with
    sRtt := some sRtt
    rttVar := some rttVar
    rto := clamp (sRtt + e.options.k * rttVar) e.options.minRto e.options.maxRto }

def backoffRto (e : RttEstimator) : RttEstimator :=
  { e with rto := clamp (e.rto * e.options.rtoBackoffMultiplier) e.options.minRto e.options.maxRto }

end RttEstimator

/-! ## The window -/

namespace Aimd

structure Options where
  initCwnd : ℚ
  initSsthresh : ℚ
  mdCoef : ℚ
  aiStep : ℚ
  disableCwa : Bool
  resetCwndToInit : Bool
  maxRetriesOnTimeoutOrNack : ℤ
  deriving Repr, DecidableEq

structure Window where
  cwnd : ℚ
  ssthresh : ℚ
  rttEstimator : RttEstimator
  deriving Repr, DecidableEq

/-- `static_cast<int>` of a number, which C++ leaves undefined where the integer part is no `int`. -/
def toInt (q : ℚ) : ℤ := if 0 ≤ q then q.floor else q.ceil

def increaseWindow (o : Options) (w : Window) : Window :=
  if w.cwnd < w.ssthresh then { w with cwnd := w.cwnd + o.aiStep }
  else { w with cwnd := w.cwnd + o.aiStep / w.cwnd.floor }

def decreaseWindow (o : Options) (w : Window) : Window :=
  let ssthresh := max 2 (w.cwnd * o.mdCoef)
  { w with ssthresh := ssthresh, cwnd := if o.resetCwndToInit then o.initCwnd else ssthresh }

def control (o : Options) : Control Window where
  cwnd w := toInt w.cwnd
  increaseWindow _ := increaseWindow o
  decreaseWindow _ := decreaseWindow o
  backoffRto w := { w with rttEstimator := w.rttEstimator.backoffRto }
  getEstimatedRto w := w.rttEstimator.rto
  addMeasurement _ _ rtt nExpectedSamples w :=
    { w with rttEstimator := w.rttEstimator.addMeasurement rtt nExpectedSamples }

/-- `PipelineInterestsAimd`; `toUri` gives the URI of the Interest for a segment. -/
def scheme (o : Options) (toUri : ℕ → String) : Scheme Window where
  toControl := control o
  isCubic := false
  maxRetriesOnTimeoutOrNack := o.maxRetriesOnTimeoutOrNack
  disableCwa := o.disableCwa
  toUri := toUri

/-- The window and the estimator as they are constructed. -/
def initial (o : Options) (rtt : RttEstimator.Options) : Window :=
  ⟨o.initCwnd, o.initSsthresh, RttEstimator.create rtt⟩

/-- The default options, but for the initial window; the threshold is the largest `double`. -/
def withCwnd (initCwnd : ℚ) : Options where
  initCwnd := initCwnd
  initSsthresh := ((2 ^ 1024 - 2 ^ 971 : ℕ) : ℚ)
  mdCoef := 1 / 2
  aiStep := 1
  disableCwa := false
  resetCwndToInit := false
  maxRetriesOnTimeoutOrNack := 3

/-- A pipeline with default options but for the initial window. -/
def pipeline (initCwnd : ℚ) : Scheme Window := scheme (withCwnd initCwnd) fun n => "/data/" ++ toString n

/-- That pipeline, run with the discovered packet `data`. -/
def started (initCwnd : ℚ) (data : Data) : Adaptive Window :=
  run (pipeline initCwnd) 0 (initial (withCwnd initCwnd) .default) data

end Aimd

end NdnTools.Chunks.Adaptive
