/-
What ndnping prints at its end: `computeStatistics` on what a `StatisticsCollector` counted. Whatever the
outcomes of the pings and their order, the rates add up, the average is between the extremes, and the
value under the square root is the variance of the samples.

The square root is not rational, so it is a parameter.
-/
import NdnTools.Ndnping.Client
import Mathlib.Tactic

namespace NdnTools.Ndnping

structure Statistics where
  pingPrefix : Name
  nSent : ℤ
  nReceived : ℤ
  nNacked : ℤ
  pingStartTime : Time
  minRtt : Rtt
  maxRtt : Rtt
  packetLossRate : Option ℚ
  packetNackedRate : Option ℚ
  sumRtt : Rtt
  avgRtt : Option Rtt
  stdDevRtt : Option Rtt
  deriving Repr, DecidableEq

/-- A quotient of numbers, which is not one if the divisor is 0. -/
def quotient (a b : ℚ) : Option ℚ := if b = 0 then none else some (a / b)

namespace StatisticsCollector

/-- `m_sumRtt / m_nReceived` -/
def avgRtt (c : StatisticsCollector) : Option Rtt := quotient c.sumRtt c.nReceived

/-- The value whose square root is `stdDevRtt`. -/
def varRtt (c : StatisticsCollector) : Option ℚ := do
  let avgRtt ← c.avgRtt
  return (← quotient c.sumRttSquared c.nReceived) - avgRtt * avgRtt

def computeStatistics (sqrt : ℚ → ℚ) (options : Options) (c : StatisticsCollector) : Statistics where
  pingPrefix := options.pingPrefix
  nSent := c.nSent
  nReceived := c.nReceived
  nNacked := c.nNacked
  pingStartTime := c.pingStartTime
  minRtt := c.minRtt
  maxRtt := c.maxRtt
  packetLossRate := quotient ((c.nSent - c.nReceived - c.nNacked : ℤ) : ℚ) c.nSent
  packetNackedRate := quotient c.nNacked c.nSent
  sumRtt := c.sumRtt
  avgRtt := c.avgRtt
  stdDevRtt := c.varRtt.map sqrt

/-! ## Calls -/

inductive Call
  | recordData (rtt : Rtt)
  | recordNack
  | recordTimeout
  deriving Repr, DecidableEq

def Call.apply (c : StatisticsCollector) : Call → StatisticsCollector
  | recordData rtt => c.recordData rtt
  | recordNack => c.recordNack
  | recordTimeout => c.recordTimeout

/-- A collector after some calls. -/
def collect (now : Time) (cs : List Call) : StatisticsCollector := cs.foldl Call.apply (create now)

def Call.sample : Call → List Rtt
  | recordData rtt => [rtt]
  | recordNack | recordTimeout => []

/-- The samples of some calls, in order. -/
def samples (cs : List Call) : List Rtt := cs.flatMap Call.sample

theorem samples_concat (cs : List Call) (call : Call) : samples (cs ++ [call]) = samples cs ++ call.sample := by
  simp [samples]

/-- No two calls depend on their order. -/
theorem apply_comm (c : StatisticsCollector) (x y : Call) : (x.apply c |> y.apply) = (y.apply c |> x.apply) := by
  cases x with
  | recordData r =>
    cases y with
    | recordData r' =>
      simp only [Call.apply, recordData, StatisticsCollector.mk.injEq, true_and]
      exact ⟨min_right_comm _ _ _, max_right_comm _ _ _, add_right_comm _ _ _, add_right_comm _ _ _⟩
    | recordNack => rfl
    | recordTimeout => rfl
  | recordNack => cases y <;> rfl
  | recordTimeout => cases y <;> rfl

theorem collect_perm (now : Time) {cs cs' : List Call} (h : cs.Perm cs') : collect now cs = collect now cs' :=
  h.foldl_eq' (fun x _ y _ c => apply_comm c x y) (create now)

/-! ## What was counted -/

/-- What the members are after the calls `cs`. -/
structure Collected (c : StatisticsCollector) (cs : List Call) : Prop where
  nSent : c.nSent = cs.length
  nReceived : c.nReceived = (samples cs).length
  nNacked : 0 ≤ c.nNacked
  counted : c.nReceived + c.nNacked ≤ c.nSent
  minRtt : ∀ r ∈ samples cs, c.minRtt ≤ r
  maxRtt : ∀ r ∈ samples cs, r ≤ c.maxRtt
  sumRtt : c.sumRtt = (samples cs).sum
  sumRttSquared : c.sumRttSquared = ((samples cs).map fun r => r * r).sum

theorem collected_create (now : Time) : Collected (create now) [] := by
  constructor <;> simp [create, samples]

theorem Collected.recordData {c : StatisticsCollector} {cs : List Call} (h : Collected c cs) (rtt : Rtt) :
    Collected (c.recordData rtt) (cs ++ [.recordData rtt]) := by
  have hsamples : samples (cs ++ [.recordData rtt]) = samples cs ++ [rtt] := samples_concat cs _
  have hsent := h.nSent
  have hreceived := h.nReceived
  have hcounted := h.counted
  constructor
  · simp [StatisticsCollector.recordData, hsent]
  · simp [StatisticsCollector.recordData, hreceived, hsamples]
  · exact h.nNacked
  · simp only [StatisticsCollector.recordData]
    omega
  · rw [hsamples]
    intro r hr
    rcases List.mem_append.1 hr with hr | hr
    · exact (min_le_left _ _).trans (h.minRtt r hr)
    · rw [List.mem_singleton.1 hr]
      exact min_le_right _ _
  · rw [hsamples]
    intro r hr
    rcases List.mem_append.1 hr with hr | hr
    · exact (h.maxRtt r hr).trans (le_max_left _ _)
    · rw [List.mem_singleton.1 hr]
      exact le_max_right _ _
  · simp [StatisticsCollector.recordData, hsamples, h.sumRtt]
  · simp [StatisticsCollector.recordData, hsamples, h.sumRttSquared]

/-- Without a sample only the counters change. -/
theorem Collected.count {c c' : StatisticsCollector} {cs : List Call} (h : Collected c cs) {call : Call}
    (hsample : call.sample = []) (hsent : c'.nSent = c.nSent + 1) (hnacked : 0 ≤ c'.nNacked)
    (hle : c'.nNacked ≤ c.nNacked + 1)
    (hframe : c' = { c with nSent := c'.nSent, nNacked := c'.nNacked }) : Collected c' (cs ++ [call]) := by
  have hsamples : samples (cs ++ [call]) = samples cs := by rw [samples_concat, hsample, List.append_nil]
  have hcounted := h.counted
  have hlength := h.nSent
  constructor
  · rw [hsent, hlength, List.length_append]
    rfl
  · rw [hsamples, hframe]
    exact h.nReceived
  · exact hnacked
  · have hreceived : c'.nReceived = c.nReceived := by rw [hframe]
    omega
  · rw [hsamples, hframe]
    exact h.minRtt
  · rw [hsamples, hframe]
    exact h.maxRtt
  · rw [hsamples, hframe]
    exact h.sumRtt
  · rw [hsamples, hframe]
    exact h.sumRttSquared

theorem Collected.apply {c : StatisticsCollector} {cs : List Call} (h : Collected c cs) (call : Call) :
    Collected (call.apply c) (cs ++ [call]) := by
  have hnacked := h.nNacked
  cases call with
  | recordData rtt => exact h.recordData rtt
  | recordNack => exact h.count rfl rfl (by simp only [Call.apply, recordNack]; omega) le_rfl rfl
  | recordTimeout => exact h.count rfl rfl hnacked (by simp only [Call.apply, recordTimeout]; omega) rfl

theorem collected_collect (now : Time) (cs : List Call) : Collected (collect now cs) cs := by
  induction cs using List.reverseRecOn with
  | nil => exact collected_create now
  | append_singleton cs call ih =>
    unfold collect
    rw [List.foldl_append]
    exact ih.apply call

/-! ## The rates -/

/-- The rates are shares of the pings that add up. -/
def RatesAddUp (s : Statistics) : Prop :=
  ∃ loss nacked, s.packetLossRate = some loss ∧ s.packetNackedRate = some nacked ∧
    (0 ≤ loss ∧ loss ≤ 1) ∧ (0 ≤ nacked ∧ nacked ≤ 1) ∧ (s.nReceived : ℚ) / s.nSent + loss + nacked = 1

theorem quotient_of_pos (a : ℚ) {b : ℚ} (h : 0 < b) : quotient a b = some (a / b) := if_neg h.ne'

/-- A part of a whole. -/
theorem share_bounds {a b : ℤ} (ha : 0 ≤ a) (hab : a ≤ b) (hb : 0 < b) : 0 ≤ (a : ℚ) / b ∧ (a : ℚ) / b ≤ 1 := by
  have hb' : (0 : ℚ) < b := by exact_mod_cast hb
  constructor
  · exact div_nonneg (by exact_mod_cast ha) hb'.le
  · exact (div_le_one hb').2 (by exact_mod_cast hab)

variable {c : StatisticsCollector} {cs : List Call}

theorem Collected.ratesAddUp (h : Collected c cs) (hne : cs ≠ []) (sqrt : ℚ → ℚ) (options : Options) :
    RatesAddUp (c.computeStatistics sqrt options) := by
  have hsent := h.nSent
  have hreceived := h.nReceived
  have hcounted := h.counted
  have hnacked := h.nNacked
  have hlength := List.length_pos_of_ne_nil hne
  have hpos : 0 < c.nSent := by omega
  have hpos' : (0 : ℚ) < c.nSent := by exact_mod_cast hpos
  refine ⟨_, _, quotient_of_pos _ hpos', quotient_of_pos _ hpos', ?_, ?_, ?_⟩
  · exact share_bounds (by omega) (by omega) hpos
  · exact share_bounds hnacked (by omega) hpos
  · change (c.nReceived : ℚ) / c.nSent + _ + _ = 1
    push_cast
    field_simp
    ring

/-! ## The times -/

/-- The average is between the extremes, and the value under the square root is the mean of the squared
distances from it. -/
def TimesFit (sqrt : ℚ → ℚ) (s : Statistics) (c : StatisticsCollector) (rtts : List Rtt) : Prop :=
  ∃ avg var, s.avgRtt = some avg ∧ c.varRtt = some var ∧ s.stdDevRtt = some (sqrt var) ∧
    (s.minRtt ≤ avg ∧ avg ≤ s.maxRtt) ∧ 0 ≤ var ∧ var = (rtts.map fun r => (r - avg) ^ 2).sum / rtts.length

/-- The sum of the squared distances from any `a`, by running sums. -/
theorem sum_squared_distances (a : ℚ) : ∀ rs : List ℚ,
    (rs.map fun r => (r - a) ^ 2).sum = (rs.map fun r => r * r).sum - 2 * a * rs.sum + rs.length * a ^ 2
  | [] => by simp
  | r :: rs => by
    have ih := sum_squared_distances a rs
    simp only [List.map_cons, List.sum_cons, List.length_cons, ih]
    push_cast
    ring

theorem Collected.timesFit (h : Collected c cs) (hpos : 0 < c.nReceived) (sqrt : ℚ → ℚ) (options : Options) :
    TimesFit sqrt (c.computeStatistics sqrt options) c (samples cs) := by
  have hlength : (c.nReceived : ℚ) = (samples cs).length := by exact_mod_cast h.nReceived
  have hn : (0 : ℚ) < (samples cs).length := by
    rw [← hlength]
    exact_mod_cast hpos
  have havg : c.avgRtt = some ((samples cs).sum / (samples cs).length) := by
    unfold StatisticsCollector.avgRtt
    rw [h.sumRtt, hlength]
    exact quotient_of_pos _ hn
  have hvar : c.varRtt = some (((samples cs).map fun r => r * r).sum / (samples cs).length -
      (samples cs).sum / (samples cs).length * ((samples cs).sum / (samples cs).length)) := by
    unfold varRtt
    rw [havg, h.sumRttSquared, hlength, quotient_of_pos _ hn]
    rfl
  have hmean : ((samples cs).map fun r => r * r).sum / (samples cs).length -
      (samples cs).sum / (samples cs).length * ((samples cs).sum / (samples cs).length) =
      ((samples cs).map fun r => (r - (samples cs).sum / (samples cs).length) ^ 2).sum / (samples cs).length := by
    rw [sum_squared_distances]
    field_simp
    ring
  refine ⟨_, _, havg, hvar, ?_, ⟨?_, ?_⟩, ?_, hmean⟩
  · exact congrArg (Option.map sqrt) hvar
  · rw [le_div_iff₀ hn, mul_comm, ← nsmul_eq_mul]
    exact List.card_nsmul_le_sum _ _ h.minRtt
  · rw [div_le_iff₀ hn, mul_comm, ← nsmul_eq_mul]
    exact List.sum_le_card_nsmul _ _ h.maxRtt
  · rw [hmean]
    refine div_nonneg (List.sum_nonneg fun d hd => ?_) hn.le
    obtain ⟨r, -, rfl⟩ := List.mem_map.1 hd
    exact sq_nonneg _

theorem statistics_consistent (sqrt : ℚ → ℚ) (options : Options) (now : Time) (cs : List Call) (hne : cs ≠ []) :
    RatesAddUp ((collect now cs).computeStatistics sqrt options) ∧
    (0 < ((collect now cs).computeStatistics sqrt options).nReceived →
      TimesFit sqrt ((collect now cs).computeStatistics sqrt options) (collect now cs) (samples cs)) ∧
    ∀ cs' : List Call, cs.Perm cs' →
      (collect now cs').computeStatistics sqrt options = (collect now cs).computeStatistics sqrt options := by
  have h := collected_collect now cs
  refine ⟨h.ratesAddUp hne sqrt options, fun hpos => h.timesFit hpos sqrt options, fun cs' hperm => ?_⟩
  rw [collect_perm now hperm]

/-- An answer in 50 ms, a Nack and an answer in 100 ms. -/
def threeCalls : List Call := [.recordData 50, .recordNack, .recordData 100]

example : (collect 0 threeCalls).varRtt = some 625 := by decide +kernel

def threePings : Options := ⟨[("ndn" : Component)], false, false, 3, 1000, 4000, 0, []⟩

theorem statistics_consistent_threeCalls :
    RatesAddUp ((collect 0 threeCalls).computeStatistics id threePings) ∧
    TimesFit id ((collect 0 threeCalls).computeStatistics id threePings) (collect 0 threeCalls) [50, 100] ∧
    (collect 0 threeCalls.reverse).computeStatistics id threePings =
      (collect 0 threeCalls).computeStatistics id threePings := by
  obtain ⟨hrates, htimes, hperm⟩ := statistics_consistent id threePings 0 threeCalls (by decide)
  exact ⟨hrates, htimes (by decide +kernel), hperm _ (List.reverse_perm _).symm⟩

end StatisticsCollector

end NdnTools.Ndnping
