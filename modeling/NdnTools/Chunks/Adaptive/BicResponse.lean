/-
The sign of the response of `PipelineInterestsTcpBic`: an accepted segment should not shrink the window,
and a loss should. A loss does. An accepted segment shrinks the window when a binary search starts above
its target: the constructor leaves the target at 0, and a loss sets it from the window before, which
the increases below `LOW_WINDOW` may pass.
-/
import NdnTools.Chunks.Adaptive.WindowFloor

namespace NdnTools.Chunks.Adaptive.TcpBic

variable {o : Options} {u : Unset} {w : Window}

/-- What holds of the variables of the window in every state. -/
structure Sane (w : Window) : Prop where
  cwnd : 0 < w.cwnd
  target : 0 ≤ w.bicTargetWin
  maxWin : 0 ≤ w.bicMaxWin
  stepping : Stepping w

/-- A binary search would go down. -/
def Overshot (w : Window) : Prop := lowWindow ≤ w.cwnd ∧ w.isBicSs = false ∧ w.bicTargetWin < w.cwnd

instance : DecidablePred Overshot := fun _ => inferInstanceAs (Decidable (_ ∧ _))

theorem le_searchIncrease_iff (hw : 0 < w.cwnd) : w.cwnd ≤ searchIncrease w ↔ w.cwnd ≤ w.bicTargetWin := by
  unfold searchIncrease
  split
  · rw [le_add_iff_nonneg_right, le_div_iff₀ hw, zero_mul, sub_nonneg]
  · rename_i hfar
    have hinc : (0 : ℚ) ≤ maxIncrement := by norm_num [maxIncrement]
    refine ⟨fun _ => ?_, fun _ => le_add_of_nonneg_right (div_nonneg hinc hw.le)⟩
    exact sub_nonneg.1 (hinc.trans (not_lt.1 hfar))

/-- An increase raises the window unless a binary search is above its target. -/
theorem le_increaseWindow_iff (hw : Sane w) : w.cwnd ≤ (increaseWindow w).cwnd ↔ ¬ Overshot w := by
  rw [cwnd_increaseWindow]
  split
  · rename_i hlow
    exact ⟨fun _ h => absurd hlow (not_lt.2 h.1), fun _ => le_tcpIncrease hw.cwnd⟩
  rename_i hlow
  split
  · rename_i hsearch
    rw [le_searchIncrease_iff hw.cwnd, ← not_lt]
    exact not_congr ⟨fun h => ⟨not_lt.1 hlow, hsearch, h⟩, fun h => h.2.2⟩
  · rename_i hsearch
    have hstep : 1 ≤ w.bicSsCwnd := hw.stepping (by simpa using hsearch)
    exact ⟨fun _ h => hsearch h.2.1, fun _ => le_slowStart hw.cwnd hstep⟩

theorem decreaseWindow_lt (hw : 0 < w.cwnd) (hbeta : u.beta < 1) (hreset : u.resetToInitial = false) :
    (decreaseWindow u w).cwnd < w.cwnd := by
  rw [cwnd_decreaseWindow, if_neg (by simp [hreset])]
  split
  · exact mul_lt_of_lt_one_right hw hbeta
  · exact half_lt_self hw

/-! ## The variables stay sane -/

theorem searchIncrease_pos (hlow : lowWindow ≤ w.cwnd) (htarget : 0 ≤ w.bicTargetWin) (hss : w.isBicSs = false) :
    0 < searchIncrease w :=
  lt_of_lt_of_le zero_lt_one ((one_le_searchIncrease_iff hlow hss).2 (targetInReach_of_nonneg htarget))

theorem Sane.searchOn (h : Sane w) : Sane (searchOn w) := by
  unfold TcpBic.searchOn
  split
  · exact ⟨h.cwnd, div_nonneg (add_nonneg h.maxWin h.cwnd.le) two_pos.le, h.maxWin, h.stepping⟩
  · refine ⟨h.cwnd, h.target, ?_, fun _ => le_rfl⟩
    norm_num [maxInt]

theorem Sane.increaseWindow (h : Sane w) : Sane (increaseWindow w) := by
  have hstepping : Stepping (TcpBic.increaseWindow w) := h.stepping.increaseWindow
  unfold TcpBic.increaseWindow at hstepping ⊢
  split at hstepping
  · rename_i hlow
    rw [if_pos hlow]
    exact ⟨lt_of_lt_of_le h.cwnd (le_tcpIncrease h.cwnd), h.target, h.maxWin, hstepping⟩
  rename_i hlow
  rw [if_neg hlow]
  split at hstepping
  · rename_i hsearch
    rw [if_pos hsearch]
    exact Sane.searchOn ⟨searchIncrease_pos (not_lt.1 hlow) h.target hsearch, h.target, h.maxWin, h.stepping⟩
  · rename_i hsearch
    rw [if_neg hsearch]
    have hstep : 1 ≤ w.bicSsCwnd := h.stepping (by simpa using hsearch)
    have hpos : 0 < w.cwnd + w.bicSsCwnd / w.cwnd := lt_of_lt_of_le h.cwnd (le_slowStart h.cwnd hstep)
    unfold slowStartOn at hstepping ⊢
    dsimp only at hstepping ⊢
    split <;> split <;> exact ⟨hpos, h.target, h.maxWin, by simp_all⟩

theorem Sane.decreaseWindow (h : Sane w) (hbeta : 0 < u.beta) (hreset : u.resetToInitial = false) :
    Sane (decreaseWindow u w) := by
  have hstepping : Stepping (TcpBic.decreaseWindow u w) := h.stepping.decreaseWindow
  have hmin : 0 < w.cwnd * u.beta := mul_pos h.cwnd hbeta
  unfold TcpBic.decreaseWindow bicDecrease at hstepping ⊢
  dsimp only at hstepping ⊢
  rw [if_neg (by simp [hreset])] at hstepping ⊢
  split
  · have hmax : 0 ≤ if w.cwnd < w.bicMaxWin then (w.cwnd + w.cwnd * u.beta) / 2 else w.cwnd := by
      split
      · exact div_nonneg (add_nonneg h.cwnd.le hmin.le) two_pos.le
      · exact h.cwnd.le
    exact ⟨hmin, div_nonneg (add_nonneg hmax hmin.le) two_pos.le, hmax, h.stepping⟩
  · exact ⟨half_pos h.cwnd, h.target, h.maxWin, h.stepping⟩

theorem keepsSane (toUri : ℕ → String) (hbeta : 0 < u.beta) (hreset : u.resetToInitial = false) :
    KeepsControl (scheme o u toUri) Sane (fun _ => True) (fun _ => True) := by
  constructor
  · intro w now segNo info k hw _
    obtain ⟨rtt, heq⟩ := acknowledge_eq (o := o) (u := u) toUri now segNo info k w
    have hsane := hw.increaseWindow
    rw [heq]
    exact ⟨hsane.cwnd, hsane.target, hsane.maxWin, hsane.stepping⟩
  · intro w now hw _
    have hsane := hw.decreaseWindow hbeta hreset
    exact ⟨hsane.cwnd, hsane.target, hsane.maxWin, hsane.stepping⟩

/-! ## Runs -/

/-- An accepted segment does not shrink the window, and a loss that counts does. -/
def RightSign (sch : Scheme Window) (s : Adaptive Window) (e : Event) : Prop :=
  (Accepts sch s e → s.control.cwnd ≤ (step sch s e).control.cwnd) ∧
  (Reduces sch s e → (step sch s e).control.cwnd < s.control.cwnd)

/-- No segment is accepted while a binary search is above its target. -/
def SearchesUp (sch : Scheme Window) (s : Adaptive Window) (e : Event) : Prop :=
  Accepts sch s e → ¬ Overshot s.control

instance (sch : Scheme Window) (s : Adaptive Window) (e : Event) : Decidable (RightSign sch s e) :=
  inferInstanceAs (Decidable (_ ∧ _))

instance (sch : Scheme Window) (s : Adaptive Window) (e : Event) : Decidable (SearchesUp sch s e) :=
  inferInstanceAs (Decidable (_ → _))

theorem rightSign_iff_step (toUri : ℕ → String) (hbeta : u.beta < 1) (hreset : u.resetToInitial = false)
    {s : Adaptive Window} {e : Event} (hs : Sane s.control) (he : enabled s e) :
    RightSign (scheme o u toUri) s e ↔ SearchesUp (scheme o u toUri) s e := by
  have hresponse : Response (scheme o u toUri) s e (step (scheme o u toUri) s e) := step_response he
  unfold RightSign SearchesUp
  generalize step (scheme o u toUri) s e = t at hresponse
  cases hresponse with
  | kept refused calm control =>
    exact ⟨fun _ ha => absurd ha refused, fun _ => ⟨fun ha => absurd ha refused, fun hl => absurd hl calm⟩⟩
  | @accepted now id d t accepts k control =>
    obtain ⟨rtt, heq⟩ :=
      acknowledge_eq (o := o) (u := u) toUri now d.segmentNo ((entriesAt d s).infoOf d.segmentNo) k s.control
    rw [control, heq]
    constructor
    · intro h ha
      exact (le_increaseWindow_iff hs).1 (h.1 ha)
    · intro h
      exact ⟨fun ha => (le_increaseWindow_iff hs).2 (h ha), fun hl => False.elim hl.1⟩
  | reduced reduces control =>
    rw [control]
    constructor
    · intro _ ha
      cases e with
      | data now id d => exact False.elim reduces.1
      | _ => exact False.elim ha
    · intro _
      refine ⟨fun ha => ?_, fun _ => decreaseWindow_lt hs.cwnd hbeta hreset⟩
      cases e with
      | data now id d => exact False.elim reduces.1
      | _ => exact False.elim ha

theorem rightSign_iff (o : Options) (u : Unset) (rtt : RttEstimator.Options) (toUri : ℕ → String) (now : Time)
    (data : Data) (es : List Event) (hinit : 1 ≤ o.initCwnd) (hpos : 0 < u.beta) (hbeta : u.beta < 1)
    (hreset : u.resetToInitial = false)
    (hr : (machine (scheme o u toUri)).Runs (run (scheme o u toUri) now (initial o rtt) data) es) :
    (machine (scheme o u toUri)).Each (RightSign (scheme o u toUri))
        (run (scheme o u toUri) now (initial o rtt) data) es ↔
      (machine (scheme o u toUri)).Each (SearchesUp (scheme o u toUri))
        (run (scheme o u toUri) now (initial o rtt) data) es := by
  have hinitial : Sane (initial o rtt) := by
    refine ⟨lt_of_lt_of_le zero_lt_one hinit, le_rfl, ?_, fun h => by cases h⟩
    norm_num [initial, maxInt]
  have hsane := (keepsSane (o := o) toUri hpos hreset).always hinitial hr
  exact Machine.each_congr (J := fun s => Sane s.control)
    (fun s e hs he => rightSign_iff_step toUri hbeta hreset hs he) hr hsane

theorem rightSign_iff_loss :
    (machine pipeline).Each (RightSign pipeline) (started (packet 0 none))
        [.data 10 1 (packet 1 none), .nack 20 2 .congestion] ↔
      (machine pipeline).Each (SearchesUp pipeline) (started (packet 0 none))
        [.data 10 1 (packet 1 none), .nack 20 2 .congestion] :=
  rightSign_iff .default ⟨4 / 5, false, 0⟩ .default (fun n => "/data/" ++ toString n) 0 (packet 0 none) _ le_rfl
    (by decide +kernel) (by decide +kernel) rfl (by decide +kernel)

/-- Fourteen segments arrive without a loss. -/
def firstSegments : List Event := (List.range 14).map fun i => .data 10 (i + 1) (packet (i + 1) none)

/-- The window grows from 1 to 14, the search begins with the target at 0, and the next segment shrinks
the window to 13. -/
theorem first_search_shrinks :
    (machine pipeline).Runs (started (packet 0 none)) firstSegments ∧
      ¬ (machine pipeline).Each (RightSign pipeline) (started (packet 0 none)) firstSegments := by
  constructor
  · decide +kernel
  · decide +kernel

end NdnTools.Chunks.Adaptive.TcpBic
