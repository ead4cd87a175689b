/-
`DataFetcher` (`data-fetcher.cpp`): fetches the Data of one Interest, expressing it again after a
Nack or a timeout as long as the retry limits allow. A fetcher ends by delivering, by failing or by
being cancelled; whatever happens to it afterwards, it stays as it was.

A pipeline sees of a fetcher the two flags of `DataFetcher`; `Fetcher` is the whole object.
`outstanding` are the Interests the Face may still answer, `timers` the scheduled expressions with
their delays; `expressed` and `calls` are the Interests expressed and the callbacks invoked so far.
-/
import NdnTools.Packet
import NdnTools.Lib.Run
import Mathlib.Tactic

namespace NdnTools.Chunks

/-- The two flags of a `DataFetcher` that its pipeline looks at. -/
structure DataFetcher where
  isStopped : Bool
  hasError : Bool
  deriving Repr, DecidableEq

namespace DataFetcher

/-- A fetcher that has just expressed its Interest. -/
def fetch : DataFetcher := ⟨false, false⟩

def isRunning (f : DataFetcher) : Bool := !f.isStopped && !f.hasError

def cancel (f : DataFetcher) : DataFetcher := if f.isRunning then { f with isStopped := true } else f

end DataFetcher

/-- How the name of an Interest is written in a message. -/
class ToUri (ι : Type*) where
  toUri : ι → String

instance : ToUri String := ⟨id⟩

/-- The invocation of one of the three callbacks. -/
inductive Callback (ι δ : Type*)
  | onData (interest : ι) (data : δ)
  | onNack (interest : ι) (reason : String)
  | onTimeout (interest : ι) (reason : String)
  deriving Repr, DecidableEq

structure Fetcher (ι δ : Type*) extends DataFetcher where
  maxNackRetries : ℤ
  maxTimeoutRetries : ℤ
  /-- Whether `m_onNack` and `m_onTimeout` are set. -/
  hasOnNack : Bool
  hasOnTimeout : Bool
  nNacks : ℕ
  nTimeouts : ℕ
  nCongestionRetries : ℕ
  outstanding : List ι
  timers : List (ℕ × ι)
  expressed : List ι
  calls : List (Callback ι δ)
  deriving Repr, DecidableEq

namespace Fetcher

variable {ι δ : Type*}

/-- `MAX_RETRIES_INFINITE`. -/
def maxRetriesInfinite : ℤ := -1

/-- `MAX_CONGESTION_BACKOFF_TIME`, in milliseconds. -/
def maxCongestionBackoffTime : ℕ := 10000

def expressInterest (interest : ι) (f : Fetcher ι δ) : Fetcher ι δ :=
  { f with
    nCongestionRetries := 0
    outstanding := f.outstanding ++ [interest]
    expressed := f.expressed ++ [interest] }

/-- The constructor. -/
def init (maxNackRetries maxTimeoutRetries : ℤ) (hasOnNack hasOnTimeout : Bool) : Fetcher ι δ where
  isStopped := false
  hasError := false
  maxNackRetries := maxNackRetries
  maxTimeoutRetries := maxTimeoutRetries
  hasOnNack := hasOnNack
  hasOnTimeout := hasOnTimeout
  nNacks := 0
  nTimeouts := 0
  nCongestionRetries := 0
  outstanding := []
  timers := []
  expressed := []
  calls := []

def fetch (interest : ι) (maxNackRetries maxTimeoutRetries : ℤ) (hasOnNack hasOnTimeout : Bool) : Fetcher ι δ :=
  expressInterest interest (init maxNackRetries maxTimeoutRetries hasOnNack hasOnTimeout)

/-- `cancel`: the Face is asked to forget the Interest, which it may still answer before it does;
the scheduler drops its events at once. -/
def cancel (f : Fetcher ι δ) : Fetcher ι δ :=
  if f.isRunning then { f with isStopped := true, timers := [] } else f

/-- The last statement of every handler that ends the fetcher. -/
def invoke (callback : Callback ι δ) (f : Fetcher ι δ) : Fetcher ι δ :=
  { f with calls := f.calls ++ [callback] }

def handleData (interest : ι) (data : δ) (f : Fetcher ι δ) : Fetcher ι δ :=
  if !f.isRunning then f
  else invoke (.onData interest data) { f with isStopped := true }

/-- `m_scheduler.scheduleEvent` with `expressInterest`. -/
def scheduleEvent (delay : ℕ) (interest : ι) (f : Fetcher ι δ) : Fetcher ι δ :=
  { f with timers := f.timers ++ [(delay, interest)] }

/-- The Nack with reason Congestion. -/
def backOff (interest : ι) (f : Fetcher ι δ) : Fetcher ι δ :=
  let backoffTime := 2 ^ f.nCongestionRetries
  if maxCongestionBackoffTime < backoffTime then scheduleEvent maxCongestionBackoffTime interest f
  else scheduleEvent backoffTime interest { f with nCongestionRetries := f.nCongestionRetries + 1 }

/-- `m_hasError = true; if (m_onNack) m_onNack(…)`. -/
def failNack (interest : ι) (reason : String) (f : Fetcher ι δ) : Fetcher ι δ :=
  let f := { f with hasError := true }
  if f.hasOnNack then invoke (.onNack interest reason) f else f

def failTimeout (interest : ι) (reason : String) (f : Fetcher ι δ) : Fetcher ι δ :=
  let f := { f with hasError := true }
  if f.hasOnTimeout then invoke (.onTimeout interest reason) f else f

section Messages

variable [ToUri ι]

def nackText (interest : ι) (reason : NackReason) : String :=
  "Could not retrieve data for " ++ ToUri.toUri interest ++ ", reason: " ++ reason.toString

def nackRetriesText (maxNackRetries : ℤ) (interest : ι) : String :=
  "Reached the maximum number of nack retries (" ++ toString maxNackRetries ++
    ") while retrieving data for " ++ ToUri.toUri interest

def timeoutRetriesText (maxTimeoutRetries : ℤ) (interest : ι) : String :=
  "Reached the maximum number of timeout retries (" ++ toString maxTimeoutRetries ++
    ") while retrieving data for " ++ ToUri.toUri interest

/-- `if (max != MAX_RETRIES_INFINITE) ++n`. -/
def countRetry (max : ℤ) (n : ℕ) : ℕ := if max ≠ maxRetriesInfinite then n + 1 else n

/-- `n <= max || max == MAX_RETRIES_INFINITE`. -/
def MayRetry (max : ℤ) (n : ℕ) : Prop := n ≤ max ∨ max = maxRetriesInfinite

instance (max : ℤ) (n : ℕ) : Decidable (MayRetry max n) := inferInstanceAs (Decidable (_ ∨ _))

def handleNack (interest : ι) (reason : NackReason) (f : Fetcher ι δ) : Fetcher ι δ :=
  if !f.isRunning then f
  else
    let f := { f with nNacks := countRetry f.maxNackRetries f.nNacks }
    if MayRetry f.maxNackRetries f.nNacks then
      match reason with
      | .duplicate => expressInterest interest f
      | .congestion => backOff interest f
      | _ => failNack interest (nackText interest reason) f
    else failNack interest (nackRetriesText f.maxNackRetries interest) f

def handleTimeout (interest : ι) (f : Fetcher ι δ) : Fetcher ι δ :=
  if !f.isRunning then f
  else
    let f := { f with nTimeouts := countRetry f.maxTimeoutRetries f.nTimeouts }
    if MayRetry f.maxTimeoutRetries f.nTimeouts then expressInterest interest f
    else failTimeout interest (timeoutRetriesText f.maxTimeoutRetries interest) f

end Messages

/-! ## Runs -/

/-- What can happen to a fetcher: the Face answers an Interest with Data or a Nack or lets it expire,
a scheduled expression is due, or the fetcher is cancelled, from outside or by its own callback. -/
inductive Event (ι δ : Type*)
  | data (interest : ι) (d : δ)
  | nack (interest : ι) (reason : NackReason)
  | timeout (interest : ι)
  | backoff (delay : ℕ) (interest : ι)
  | cancel
  deriving Repr, DecidableEq

section Steps

variable [DecidableEq ι]

/-- The Face has no further answer for the Interest. -/
def answered (interest : ι) (f : Fetcher ι δ) : Fetcher ι δ :=
  { f with outstanding := f.outstanding.erase interest }

/-- The scheduled expression is carried out. -/
def due (delay : ℕ) (interest : ι) (f : Fetcher ι δ) : Fetcher ι δ :=
  expressInterest interest { f with timers := f.timers.erase (delay, interest) }

def step [ToUri ι] (f : Fetcher ι δ) : Event ι δ → Fetcher ι δ
  | .data interest d => handleData interest d (answered interest f)
  | .nack interest reason => handleNack interest reason (answered interest f)
  | .timeout interest => handleTimeout interest (answered interest f)
  | .backoff delay interest => due delay interest f
  | .cancel => cancel f

/-- A running fetcher gets answers for its outstanding Interests only; after the end any answer may
still arrive. Only scheduled expressions become due. -/
def enabled (f : Fetcher ι δ) : Event ι δ → Prop
  | .data interest _ => interest ∈ f.outstanding ∨ f.isRunning = false
  | .nack interest _ => interest ∈ f.outstanding ∨ f.isRunning = false
  | .timeout interest => interest ∈ f.outstanding ∨ f.isRunning = false
  | .backoff delay interest => (delay, interest) ∈ f.timers
  | .cancel => True

instance (f : Fetcher ι δ) (e : Event ι δ) : Decidable (enabled f e) := by
  cases e <;> unfold enabled <;> infer_instance

def machine [ToUri ι] : Machine (Fetcher ι δ) (Event ι δ) := ⟨enabled, step⟩

instance [ToUri ι] (f : Fetcher ι δ) (e : Event ι δ) : Decidable (machine.enabled f e) :=
  inferInstanceAs (Decidable (enabled f e))

end Steps

end Fetcher

end NdnTools.Chunks
