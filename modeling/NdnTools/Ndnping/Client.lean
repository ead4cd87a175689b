/-
The ndnping client: `Ping`, which sends an Interest at each expiry of its timer until `nPings` have been
sent, with the `StatisticsCollector` and the `Runner` connected to its signals. The Face keeps the
Interests that have not been answered, and answers each with Data, a Nack or a timeout.
-/
import NdnTools.Packet
import NdnTools.Lib.Run
import NdnTools.Ndnping.Statistics

namespace NdnTools.Ndnping

structure Options where
  pingPrefix : Name
  shouldAllowStaleData : Bool
  shouldGenerateRandomSeq : Bool
  /-- No limit if negative. -/
  nPings : ℤ
  interval : Time
  timeout : Time
  startSeq : UInt64
  /-- Empty if there is none. -/
  clientIdentifier : Component
  deriving Repr, DecidableEq

structure Interest where
  name : Name
  mustBeFresh : Bool
  interestLifetime : Time
  deriving Repr, DecidableEq

/-- An Interest that the Face was asked to express, with what is bound to its callbacks. -/
structure Pending where
  interest : Interest
  seq : UInt64
  sendTime : Time
  deriving Repr, DecidableEq

structure Ping where
  options : Options
  nSent : ℤ
  nextSeq : UInt64
  nOutstanding : ℤ
  /-- The delay after which `performPing` is scheduled, if it is. -/
  nextPingEvent : Option Time
  deriving Repr, DecidableEq

/-- The client, with the Face. -/
structure Runner where
  ping : Ping
  statisticsCollector : StatisticsCollector
  face : List Pending
  /-- Every Interest that was expressed; not read. -/
  expressed : List Pending
  /-- How often `afterTimeout` was emitted; not read. -/
  nTimeouts : ℤ
  /-- The statistics at each emission of `afterFinish`; not read. -/
  finished : List StatisticsCollector
  deriving Repr, DecidableEq

/-- `random` is the number that `generateWord64` would return. -/
def Ping.create (options : Options) (random : UInt64) : Ping where
  options := options
  nSent := 0
  nextSeq := if options.shouldGenerateRandomSeq then random else options.startSeq
  nOutstanding := 0
  nextPingEvent := none

def Ping.makePingName (seq : UInt64) (p : Ping) : Name :=
  p.options.pingPrefix ++ [("ping" : Component)] ++
    (if p.options.clientIdentifier = [] then [] else [p.options.clientIdentifier]) ++
    [(toString seq.toNat : Component)]

def Ping.stop (p : Ping) : Ping := { p with nextPingEvent := none }

namespace Runner

def create (options : Options) (random : UInt64) (now : Time) : Runner where
  ping := .create options random
  statisticsCollector := .create now
  face := []
  expressed := []
  nTimeouts := 0
  finished := []

/-- `afterFinish` is connected to `cancel`, which stops the timer. -/
def afterFinish (r : Runner) : Runner :=
  { r with ping := r.ping.stop, finished := r.finished ++ [r.statisticsCollector] }

def finish (r : Runner) : Runner :=
  let r := { r with ping := { r.ping with nOutstanding := r.ping.nOutstanding - 1 } }
  if 0 ≤ r.ping.nOutstanding then r else r.afterFinish

/-- What `performPing` hands to the Face. -/
def nextInterest (now : Time) (p : Ping) : Pending where
  interest := ⟨p.makePingName p.nextSeq, !p.options.shouldAllowStaleData, p.options.timeout⟩
  seq := p.nextSeq
  sendTime := now

/-- More Interests are to be sent. -/
def MorePings (p : Ping) : Prop := p.options.nPings < 0 ∨ p.nSent < p.options.nPings

instance (p : Ping) : Decidable (MorePings p) := inferInstanceAs (Decidable (_ ∨ _))

/-- `performPing` up to the increments. -/
def expressPing (now : Time) (r : Runner) : Runner :=
  { r with
    face := r.face ++ [nextInterest now r.ping]
    expressed := r.expressed ++ [nextInterest now r.ping]
    ping := { r.ping with
      nSent := r.ping.nSent + 1
      nextSeq := r.ping.nextSeq + 1
      nOutstanding := r.ping.nOutstanding + 1 } }

def performPing (now : Time) (r : Runner) : Runner :=
  let r := expressPing now r
  if MorePings r.ping then { r with ping := { r.ping with nextPingEvent := some r.ping.options.interval } }
  else r.finish

/-- `Runner::run` up to `processEvents`. -/
def start (options : Options) (random : UInt64) (now : Time) : Runner := performPing now (create options random now)

/-- The Interest is no longer pending when its callback is called. -/
def answered (p : Pending) (r : Runner) : Runner := { r with face := r.face.erase p }

/-- `afterData` is connected to `recordData`. -/
def onData (now : Time) (p : Pending) (r : Runner) : Runner :=
  finish { r with statisticsCollector := r.statisticsCollector.recordData (now - p.sendTime) }

def onNack (r : Runner) : Runner := finish { r with statisticsCollector := r.statisticsCollector.recordNack }

def onTimeout (r : Runner) : Runner :=
  finish { r with statisticsCollector := r.statisticsCollector.recordTimeout, nTimeouts := r.nTimeouts + 1 }

/-- What can happen: the timer expires, the Face answers a pending Interest, or the user interrupts. -/
inductive Event
  | timer (now : Time)
  | data (now : Time) (p : Pending)
  | nack (p : Pending)
  | timeout (p : Pending)
  | interrupt
  deriving Repr, DecidableEq

def step (r : Runner) : Event → Runner
  | .timer now => performPing now { r with ping := { r.ping with nextPingEvent := none } }
  | .data now p => onData now p (answered p r)
  | .nack p => onNack (answered p r)
  | .timeout p => onTimeout (answered p r)
  | .interrupt => { r with ping := r.ping.stop }

/-- The timer expires if it is set, and an answer is for a pending Interest. -/
def enabled (r : Runner) : Event → Prop
  | .timer _ => r.ping.nextPingEvent.isSome = true
  | .data _ p => p ∈ r.face
  | .nack p => p ∈ r.face
  | .timeout p => p ∈ r.face
  | .interrupt => True

instance (r : Runner) : (e : Event) → Decidable (enabled r e)
  | .timer _ => inferInstanceAs (Decidable (_ = _))
  | .data _ p => inferInstanceAs (Decidable (p ∈ r.face))
  | .nack p => inferInstanceAs (Decidable (p ∈ r.face))
  | .timeout p => inferInstanceAs (Decidable (p ∈ r.face))
  | .interrupt => .isTrue trivial

def machine : Machine Runner Event := ⟨enabled, step⟩

instance (r : Runner) (e : Event) : Decidable (machine.enabled r e) := inferInstanceAs (Decidable (enabled r e))

end Runner

end NdnTools.Ndnping
