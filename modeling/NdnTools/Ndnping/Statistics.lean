/-
The statistics of ndnping, in exact arithmetic. Round-trip times are in milliseconds; a rate or an
average over no packets is not a number, and so is `none`.
-/
import Mathlib.Data.Rat.Defs
import Mathlib.Algebra.Order.Field.Rat

namespace NdnTools.Ndnping

/-- A time in milliseconds. -/
abbrev Time := ℚ

abbrev Rtt := ℚ

/-- `std::numeric_limits<double>::max()` -/
def maxDouble : ℚ := ((2 ^ 1024 - 2 ^ 971 : ℕ) : ℚ)

structure StatisticsCollector where
  nSent : ℤ
  nReceived : ℤ
  nNacked : ℤ
  pingStartTime : Time
  minRtt : Rtt
  maxRtt : Rtt
  sumRtt : Rtt
  sumRttSquared : ℚ
  deriving Repr, DecidableEq

namespace StatisticsCollector

def create (now : Time) : StatisticsCollector := ⟨0, 0, 0, now, maxDouble, 0, 0, 0⟩

def recordData (rtt : Rtt) (c : StatisticsCollector) : StatisticsCollector :=
  { c with
    nSent := c.nSent + 1
    nReceived := c.nReceived + 1
    minRtt := min c.minRtt rtt
    maxRtt := max c.maxRtt rtt
    sumRtt := c.sumRtt + rtt
    sumRttSquared := c.sumRttSquared + rtt * rtt }

def recordNack (c : StatisticsCollector) : StatisticsCollector :=
  { c with nSent := c.nSent + 1, nNacked := c.nNacked + 1 }

def recordTimeout (c : StatisticsCollector) : StatisticsCollector := { c with nSent := c.nSent + 1 }

end StatisticsCollector

end NdnTools.Ndnping
