/-
The values of an `RttEstimator` under calls in any order: the timeout is between its bounds, the smoothed
time between the samples, and the variation at most the largest of them. The smoothed time and the
variation depend on each other, so both go into one invariant (`Estimates`), which speaks of every bound
of the samples.
-/
import NdnTools.Chunks.Adaptive.Aimd
import Mathlib.Tactic

namespace NdnTools.Chunks.Adaptive.RttEstimator

/-! ## Calls -/

inductive Call
  | addMeasurement (rtt : Time) (nExpectedSamples : ℕ)
  | backoffRto
  deriving Repr, DecidableEq

/-- The estimator under calls in any order; a sample is not negative, and one at least is expected. -/
def calls : Machine RttEstimator Call where
  enabled _
    | .addMeasurement rtt nExpectedSamples => 0 ≤ rtt ∧ 0 < nExpectedSamples
    | .backoffRto => True
  step e
    | .addMeasurement rtt nExpectedSamples => e.addMeasurement rtt nExpectedSamples
    | .backoffRto => e.backoffRto

instance : (e : RttEstimator) → (c : Call) → Decidable (calls.enabled e c)
  | _, .addMeasurement _ _ => inferInstanceAs (Decidable (_ ∧ _))
  | _, .backoffRto => .isTrue trivial

def Call.sample : Call → List Time
  | addMeasurement rtt _ => [rtt]
  | backoffRto => []

/-- The samples of some calls, in order. -/
def samples (cs : List Call) : List Time := cs.flatMap Call.sample

theorem log_sample : ∀ (e : RttEstimator) (cs : List Call), calls.log (fun _ c => c.sample) e cs = samples cs
  | _, [] => rfl
  | e, c :: cs => by
    rw [Machine.log, log_sample (calls.step e c) cs]
    rfl

/-- Options that make sense. -/
structure Options.Sound (o : Options) : Prop where
  alpha : 0 ≤ o.alpha ∧ o.alpha ≤ 1
  beta : 0 ≤ o.beta ∧ o.beta ≤ 1
  k : 0 ≤ o.k
  minRto : 0 ≤ o.minRto
  maxRto : o.minRto ≤ o.maxRto

/-! ## The timeout -/

/-- The timeout is within its bounds. -/
def RtoBounded (e : RttEstimator) : Prop := e.options.minRto ≤ e.rto ∧ e.rto ≤ e.options.maxRto

theorem clamp_bounds {v lo hi : Time} (h : lo ≤ hi) : lo ≤ clamp v lo hi ∧ clamp v lo hi ≤ hi := by
  unfold clamp
  split
  · exact ⟨le_rfl, h⟩
  · rename_i hlo
    split
    · exact ⟨h, le_rfl⟩
    · rename_i hhi
      exact ⟨not_lt.1 hlo, not_lt.1 hhi⟩

theorem le_clamp {v w lo hi : Time} (hv : v ≤ hi) (hw : v ≤ w) : v ≤ clamp w lo hi := by
  unfold clamp
  split
  · rename_i hlo
    exact hw.trans hlo.le
  · split
    · exact hv
    · exact hw

theorem options_step (e : RttEstimator) (c : Call) : (calls.step e c).options = e.options := by
  cases c with
  | addMeasurement rtt n => rfl
  | backoffRto => rfl

theorem rtoBounded_step {e : RttEstimator} (h : e.options.minRto ≤ e.options.maxRto) (c : Call) :
    RtoBounded (calls.step e c) := by
  cases c with
  | addMeasurement rtt n => exact clamp_bounds h
  | backoffRto => exact clamp_bounds h

/-- Backing off does not lower a timeout that is within its bounds. -/
theorem rto_le_backoffRto {e : RttEstimator} (ho : e.options.Sound) (hm : 1 ≤ e.options.rtoBackoffMultiplier)
    (h : RtoBounded e) : e.rto ≤ e.backoffRto.rto := by
  have hpos : 0 ≤ e.rto := ho.minRto.trans h.1
  have hmul : (1 : ℚ) ≤ e.options.rtoBackoffMultiplier := by exact_mod_cast hm
  exact le_clamp h.2 (le_mul_of_one_le_right hpos hmul)

theorem options_backoffs (e : RttEstimator) (n : ℕ) : (backoffRto^[n] e).options = e.options := by
  induction n with
  | zero => rfl
  | succ n ih =>
    rw [Function.iterate_succ_apply']
    exact ih

theorem monotone_backoffs {e : RttEstimator} (ho : e.options.Sound) (hm : 1 ≤ e.options.rtoBackoffMultiplier)
    (h : RtoBounded e) : Monotone fun n => (backoffRto^[n] e).rto := by
  have hbounded : ∀ n, RtoBounded (backoffRto^[n] e) := by
    intro n
    cases n with
    | zero => exact h
    | succ n =>
      rw [Function.iterate_succ_apply']
      refine rtoBounded_step ?_ .backoffRto
      rw [options_backoffs]
      exact ho.maxRto
  refine monotone_nat_of_le_succ fun n => ?_
  simp only [Function.iterate_succ_apply']
  refine rto_le_backoffRto ?_ ?_ (hbounded n)
  · rw [options_backoffs]
    exact ho
  · rw [options_backoffs]
    exact hm

/-! ## The samples -/

/-- `lo` and `hi` bound the samples. -/
def Bounds (lo hi : Time) (h : List Time) : Prop := ∀ r ∈ h, lo ≤ r ∧ r ≤ hi

/-- What the estimates are when the samples `h` were taken. -/
inductive Estimates (h : List Time) (e : RttEstimator) : Prop
  | unset (hnil : h = []) (hs : e.sRtt = none) (hv : e.rttVar = none)
  | set {sRtt rttVar : Time} (hcons : h ≠ []) (hs : e.sRtt = some sRtt) (hv : e.rttVar = some rttVar)
      (nonneg : 0 ≤ rttVar) (within : ∀ lo hi, Bounds lo hi h → lo ≤ sRtt ∧ sRtt ≤ hi ∧ rttVar ≤ hi)

/-- A weighted mean lies between bounds of its parts. -/
theorem mean_bounds {a x y lo hi : ℚ} (ha : 0 ≤ a ∧ a ≤ 1) (hx : lo ≤ x ∧ x ≤ hi) (hy : lo ≤ y ∧ y ≤ hi) :
    lo ≤ (1 - a) * x + a * y ∧ (1 - a) * x + a * y ≤ hi := by
  have ha' : 0 ≤ 1 - a := sub_nonneg.2 ha.2
  constructor
  · calc lo = (1 - a) * lo + a * lo := by ring
      _ ≤ (1 - a) * x + a * y := add_le_add (mul_le_mul_of_nonneg_left hx.1 ha') (mul_le_mul_of_nonneg_left hy.1 ha.1)
  · calc (1 - a) * x + a * y ≤ (1 - a) * hi + a * hi :=
          add_le_add (mul_le_mul_of_nonneg_left hx.2 ha') (mul_le_mul_of_nonneg_left hy.2 ha.1)
      _ = hi := by ring

/-- The gain for one of several expected samples. -/
theorem gain_bounds {a : ℚ} (ha : 0 ≤ a ∧ a ≤ 1) {n : ℕ} (hn : 0 < n) : 0 ≤ a / n ∧ a / n ≤ 1 := by
  have hn' : (1 : ℚ) ≤ n := by exact_mod_cast hn
  exact ⟨div_nonneg ha.1 (zero_le_one.trans hn'), (div_le_self ha.1 hn').trans ha.2⟩

theorem estimates_addMeasurement {e : RttEstimator} {h : List Time} (ho : e.options.Sound) (he : Estimates h e)
    (hpos : ∀ r ∈ h, 0 ≤ r) {rtt : Time} (hrtt : 0 ≤ rtt) {n : ℕ} (hn : 0 < n) :
    Estimates (h ++ [rtt]) (e.addMeasurement rtt n) := by
  have hcons : h ++ [rtt] ≠ [] := by simp
  cases he with
  | unset hnil hs hv =>
    subst hnil
    have hsRtt : (e.addMeasurement rtt n).sRtt = some rtt := by simp only [addMeasurement, hs]
    have hrttVar : (e.addMeasurement rtt n).rttVar = some (rtt / 2) := by simp only [addMeasurement, hs]
    refine .set hcons hsRtt hrttVar (by linarith) fun lo hi hb => ?_
    obtain ⟨hlo, hhi⟩ := hb rtt (by simp)
    exact ⟨hlo, hhi, by linarith⟩
  | @set sRtt rttVar hne hs hv hnonneg hwithin =>
    have halpha := gain_bounds ho.alpha hn
    have hbeta := gain_bounds ho.beta hn
    have hsRtt : (e.addMeasurement rtt n).sRtt =
        some ((1 - e.options.alpha / n) * sRtt + e.options.alpha / n * rtt) := by simp only [addMeasurement, hs, hv]
    have hrttVar : (e.addMeasurement rtt n).rttVar =
        some ((1 - e.options.beta / n) * rttVar + e.options.beta / n * |sRtt - rtt|) := by
      simp only [addMeasurement, hs, hv]
    refine .set hcons hsRtt hrttVar ?_ fun lo hi hb => ?_
    · exact add_nonneg (mul_nonneg (sub_nonneg.2 hbeta.2) hnonneg) (mul_nonneg hbeta.1 (abs_nonneg _))
    · have hold : Bounds lo hi h := fun r hr => hb r (List.mem_append_left _ hr)
      have hnew : lo ≤ rtt ∧ rtt ≤ hi := hb rtt (by simp)
      obtain ⟨hslo, hshi, hvhi⟩ := hwithin lo hi hold
      have hmean := mean_bounds halpha ⟨hslo, hshi⟩ hnew
      -- samples are not negative, so no two values between them are further apart than the largest
      have hspos : 0 ≤ sRtt := (hwithin 0 hi fun r hr => ⟨hpos r hr, (hold r hr).2⟩).1
      have hdist : |sRtt - rtt| ≤ hi := abs_le.2 ⟨by linarith [hnew.2], by linarith⟩
      have hvar := mean_bounds hbeta ⟨hnonneg, hvhi⟩ ⟨abs_nonneg _, hdist⟩
      exact ⟨hmean.1, hmean.2, hvar.2⟩

theorem estimates_backoffRto {e : RttEstimator} {h : List Time} (he : Estimates h e) : Estimates h e.backoffRto := by
  cases he with
  | unset hnil hs hv => exact .unset hnil hs hv
  | set hcons hs hv hnonneg hwithin => exact .set hcons hs hv hnonneg hwithin

/-- What holds of an estimator when the samples `h` were taken. -/
structure Estimating (o : Options) (e : RttEstimator) (h : List Time) : Prop where
  options : e.options = o
  nonneg : ∀ r ∈ h, 0 ≤ r
  estimates : Estimates h e

theorem Estimating.step {o : Options} (ho : o.Sound) {e : RttEstimator} {h : List Time} {c : Call}
    (he : Estimating o e h) (hc : calls.enabled e c) : Estimating o (calls.step e c) (h ++ c.sample) := by
  obtain ⟨rfl, hnonneg, hest⟩ := he
  cases c with
  | addMeasurement rtt n =>
    obtain ⟨hrtt, hn⟩ := hc
    refine ⟨rfl, fun r hr => ?_, estimates_addMeasurement ho hest hnonneg hrtt hn⟩
    rcases List.mem_append.1 hr with hr | hr
    · exact hnonneg r hr
    · rw [List.mem_singleton.1 hr]
      exact hrtt
  | backoffRto =>
    rw [show Call.backoffRto.sample = [] from rfl, List.append_nil]
    exact ⟨rfl, hnonneg, estimates_backoffRto hest⟩

theorem Estimating.exec {o : Options} (ho : o.Sound) {cs : List Call} (hr : calls.Runs (create o) cs) :
    Estimating o (calls.exec (create o) cs) (samples cs) := by
  have hstart : Estimating o (create o) [] := ⟨rfl, fun r hr => (by cases hr), .unset rfl rfl rfl⟩
  have hstep : ∀ (e : RttEstimator) (h : List Time) (c : Call), Estimating o e h → calls.enabled e c →
      Estimating o (calls.step e c) (h ++ c.sample) := fun e h c he hc => he.step ho hc
  have hlog := Machine.exec_log_inv (I := fun e h => Estimating o e h) hstep hstart hr
  rwa [List.nil_append, log_sample] at hlog

theorem exists_extremes {h : List Time} (hcons : h ≠ []) :
    ∃ lo hi, IsLeast {r | r ∈ h} lo ∧ IsGreatest {r | r ∈ h} hi := by
  obtain ⟨r, hr⟩ := List.exists_mem_of_ne_nil h hcons
  have hfin : h.toFinset.Nonempty := ⟨r, List.mem_toFinset.2 hr⟩
  have hset : {r | r ∈ h} = (h.toFinset : Set Time) := by ext x; simp
  rw [hset]
  exact ⟨_, _, h.toFinset.isLeast_min' hfin, h.toFinset.isGreatest_max' hfin⟩

/-- After a call the timeout is within its bounds. -/
theorem rtoBounded_exec : ∀ (cs : List Call) {e : RttEstimator}, e.options.minRto ≤ e.options.maxRto →
    RtoBounded e ∨ cs ≠ [] → RtoBounded (calls.exec e cs)
  | [], _, _, h => h.resolve_right fun hne => hne rfl
  | c :: cs, e, hle, _ => by
    refine rtoBounded_exec cs ?_ (.inl (rtoBounded_step hle c))
    rw [options_step]
    exact hle

/-! ## The bounds -/

/-- `lo` and `hi` are the smallest and the largest of the samples, and the estimates lie between them. -/
def EstimatesWithin (e : RttEstimator) (h : List Time) : Prop :=
  ∃ lo hi sRtt rttVar, IsLeast {r | r ∈ h} lo ∧ IsGreatest {r | r ∈ h} hi ∧
    e.sRtt = some sRtt ∧ e.rttVar = some rttVar ∧ lo ≤ sRtt ∧ sRtt ≤ hi ∧ 0 ≤ rttVar ∧ rttVar ≤ hi

theorem estimator_bounds (o : Options) (ho : o.Sound) (cs : List Call) (hr : calls.Runs (create o) cs) :
    (cs ≠ [] → RtoBounded (calls.exec (create o) cs)) ∧
    (samples cs ≠ [] → EstimatesWithin (calls.exec (create o) cs) (samples cs)) ∧
    (1 ≤ o.rtoBackoffMultiplier → RtoBounded (calls.exec (create o) cs) →
      Monotone fun n => (backoffRto^[n] (calls.exec (create o) cs)).rto) := by
  have hest := Estimating.exec ho hr
  refine ⟨fun hcs => rtoBounded_exec cs ho.maxRto (.inr hcs), fun hne => ?_, fun hm hb => ?_⟩
  · obtain ⟨lo, hi, hlo, hhi⟩ := exists_extremes hne
    cases hest.estimates with
    | unset hnil hs hv => exact absurd hnil hne
    | set hcons hs hv hnonneg hwithin =>
      obtain ⟨hslo, hshi, hvhi⟩ := hwithin lo hi fun r hr => ⟨hlo.2 hr, hhi.2 hr⟩
      exact ⟨lo, hi, _, _, hlo, hhi, hs, hv, hslo, hshi, hnonneg, hvhi⟩
  · have hopts := hest.options
    refine monotone_backoffs ?_ ?_ hb
    · rw [hopts]; exact ho
    · rw [hopts]; exact hm

theorem estimator_bounds_default :
    RtoBounded (calls.exec (create .default) [.addMeasurement 100 1, .backoffRto, .addMeasurement 50 2]) ∧
    EstimatesWithin (calls.exec (create .default) [.addMeasurement 100 1, .backoffRto, .addMeasurement 50 2])
      [100, 50] ∧
    Monotone fun n => (backoffRto^[n] (calls.exec (create .default)
      [.addMeasurement 100 1, .backoffRto, .addMeasurement 50 2])).rto := by
  have ho : Options.default.Sound := ⟨by decide +kernel, by decide +kernel, by decide +kernel, by decide +kernel,
    by decide +kernel⟩
  obtain ⟨hrto, hest, hmono⟩ := estimator_bounds .default ho
    [.addMeasurement 100 1, .backoffRto, .addMeasurement 50 2] (by decide +kernel)
  exact ⟨hrto (by simp), hest (by simp [samples, Call.sample]), hmono (by decide) (hrto (by simp))⟩

end NdnTools.Chunks.Adaptive.RttEstimator
