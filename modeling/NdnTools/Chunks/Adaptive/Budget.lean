/-
The retry budget of the adaptive pipelines, `maxRetriesOnTimeoutOrNack`. `m_retxCount` counts the
attempts to retransmit a segment, and `sendInterest` compares it with the limit when it has an entry:
the first attempt is not compared, and a limit of -1 is a limit like the others. So the budget is kept
if it is at least 1, and otherwise as long as the retransmissions that these two let through, or hold
up, do not come about.
-/
import NdnTools.Chunks.Adaptive.History
import NdnTools.Chunks.Adaptive.Aimd

namespace NdnTools.Chunks.Adaptive

variable {κ : Type}

/-- The attempts to retransmit a segment. -/
def tries (segNo : ℕ) (h : List Attempt) : ℕ := h.countP fun a => a.segNo = segNo ∧ a.isRetry

/-- The retransmissions of a segment. -/
def retransmissions (segNo : ℕ) (h : List Attempt) : ℕ := h.countP fun a => a.segNo = segNo ∧ a.kind = .retransmission

/-- The budget `m`. No segment is retransmitted more than `m` times and the attempt after `m` of them is
given to `handleFail`; with -1 none is. -/
structure RetryBudget (m : ℤ) (h : List Attempt) : Prop where
  atMost : 0 ≤ m → ∀ n, (retransmissions n h : ℤ) ≤ m
  fails : 0 ≤ m → ∀ before a after, h = before ++ a :: after → a.isRetry = true →
    (tries a.segNo before : ℤ) = m → a.kind = .exhausted
  unlimited : m = -1 → ∀ a ∈ h, a.kind ≠ .exhausted

/-- The budget is kept by what `schedulePackets` does in an iteration: it does not retransmit, or the
budget is at least 1, or it is unlimited and the segment has not been retransmitted before. -/
def WithinBudget (m : ℤ) (s : Adaptive κ) : Prop :=
  ∀ n, Retries n s → 1 ≤ m ∨ (m = -1 ∧ n ∉ s.retxCount)

instance (m : ℤ) (s : Adaptive κ) : Decidable (WithinBudget m s) :=
  match h : s.retxQueue.head? with
  | none => isTrue fun n hn => by rw [hn.2.1] at h; cases h
  | some n =>
    decidable_of_iff (Retries n s → 1 ≤ m ∨ (m = -1 ∧ n ∉ s.retxCount))
      ⟨fun hw n' hn' => (by cases h.symm.trans hn'.2.1; exact hw hn'), fun hw => hw n⟩

/-- The condition for every iteration of the `schedulePackets` that an event calls. -/
def KeepsBudget (sch : Scheme κ) (s : Adaptive κ) (e : Event) : Prop :=
  match handle sch s e with
  | .done _ => True
  | .schedulePackets t =>
    (scheduleLoop sch e.now).Each (fun x => WithinBudget sch.maxRetriesOnTimeoutOrNack x.2) (scheduleFuel sch t)
      (availableWindowSize sch t, t)

instance (sch : Scheme κ) (s : Adaptive κ) (e : Event) : Decidable (KeepsBudget sch s e) :=
  match h : handle sch s e with
  | .done _ => isTrue (by simp only [KeepsBudget, h])
  | .schedulePackets t =>
    decidable_of_iff ((scheduleLoop sch e.now).Each (fun x => WithinBudget sch.maxRetriesOnTimeoutOrNack x.2)
      (scheduleFuel sch t) (availableWindowSize sch t, t)) (by simp only [KeepsBudget, h])

/-! ## One attempt -/

theorem tries_append (n : ℕ) (h : List Attempt) (a : Attempt) :
    tries n (h ++ [a]) = tries n h + if a.segNo = n ∧ a.isRetry then 1 else 0 := by
  simp [tries, List.countP_append, List.countP_cons]

theorem retransmissions_append (n : ℕ) (h : List Attempt) (a : Attempt) :
    retransmissions n (h ++ [a]) = retransmissions n h + if a.segNo = n ∧ a.kind = .retransmission then 1 else 0 := by
  simp [retransmissions, List.countP_append, List.countP_cons]

theorem retransmissions_le_tries (n : ℕ) (h : List Attempt) : retransmissions n h ≤ tries n h := by
  refine List.countP_mono_left fun a _ ha => ?_
  simp only [decide_eq_true_eq] at ha ⊢
  exact ⟨ha.1, by simp [Attempt.isRetry, ha.2]⟩

/-- What the budget asks of the next attempt. -/
def Granted (m : ℤ) (h : List Attempt) (a : Attempt) : Prop :=
  (0 ≤ m → a.kind = .retransmission → (retransmissions a.segNo h : ℤ) < m) ∧
  (0 ≤ m → a.isRetry = true → (tries a.segNo h : ℤ) = m → a.kind = .exhausted) ∧
  (m = -1 → a.kind ≠ .exhausted)

theorem retryBudget_append (m : ℤ) (h : List Attempt) (a : Attempt) :
    RetryBudget m (h ++ [a]) ↔ RetryBudget m h ∧ Granted m h a := by
  constructor
  · intro hb
    refine ⟨⟨fun hm n => ?_, fun hm before b after heq => ?_, fun hm b hmem => ?_⟩, fun hm hk => ?_, fun hm => ?_,
      fun hm => ?_⟩
    · have hle := hb.atMost hm n
      rw [retransmissions_append] at hle
      push_cast at hle
      split at hle <;> omega
    · exact hb.fails hm before b (after ++ [a]) (by rw [heq]; simp)
    · exact hb.unlimited hm b (List.mem_append_left _ hmem)
    · have hle := hb.atMost hm a.segNo
      rw [retransmissions_append, if_pos ⟨rfl, hk⟩] at hle
      push_cast at hle
      omega
    · exact hb.fails hm h a [] rfl
    · exact hb.unlimited hm a List.mem_concat_self
  · rintro ⟨hb, hgrant, hfails, hunlimited⟩
    refine ⟨fun hm n => ?_, fun hm before b after heq => ?_, fun hm b hmem => ?_⟩
    · rw [retransmissions_append]
      split
      · rename_i hc
        obtain ⟨rfl, hk⟩ := hc
        have hlt := hgrant hm hk
        push_cast
        omega
      · exact hb.atMost hm n
    · rcases List.eq_nil_or_concat after with rfl | ⟨after, c, rfl⟩
      · obtain ⟨rfl, hab⟩ := List.append_inj' heq rfl
        cases hab
        exact hfails hm
      · rw [List.concat_eq_append, ← List.cons_append, ← List.append_assoc] at heq
        obtain ⟨rfl, -⟩ := List.append_inj' heq rfl
        exact hb.fails hm before b after rfl
    · rcases List.mem_append.1 hmem with hmem | hmem
      · exact hb.unlimited hm b hmem
      · rw [List.mem_singleton.1 hmem]
        exact hunlimited hm

/-! ## What `m_retxCount` counts -/

/-- The entries of `m_retxCount` are the segments that were retransmitted, with their attempts. -/
structure RetxCounted (s : Adaptive κ) (h : List Attempt) : Prop where
  absent : ∀ n, s.retxCount.lookup n = none → tries n h = 0
  count : ∀ n c, s.retxCount.lookup n = some c → tries n h = c ∧ 0 < retransmissions n h

variable {sch : Scheme κ} {s : Adaptive κ} {h : List Attempt}

theorem RetxCounted.of_retxCount {t : Adaptive κ} (hc : RetxCounted s h) (heq : t.retxCount = s.retxCount) :
    RetxCounted t h :=
  ⟨fun n => heq ▸ hc.absent n, fun n => heq ▸ hc.count n⟩

theorem RetxCounted.first (hc : RetxCounted s h) (now : Time) (n : ℕ) : RetxCounted s (h ++ [⟨now, n, .first⟩]) := by
  constructor
  · intro m hm
    rw [tries_append, if_neg (by simp [Attempt.isRetry])]
    exact hc.absent m hm
  · intro m c hm
    rw [tries_append, retransmissions_append, if_neg (by simp [Attempt.isRetry]), if_neg (by simp)]
    exact hc.count m c hm

/-- An attempt to retransmit is counted; the first one is a retransmission. -/
theorem RetxCounted.retry (hc : RetxCounted s h) (now : Time) {n : ℕ} (kind : Attempt.Kind) (hkind : kind ≠ .first)
    (hnew : s.retxCount.lookup n = none → kind = .retransmission) :
    RetxCounted (countRetx n s) (h ++ [⟨now, n, kind⟩]) := by
  have hretry : (⟨now, n, kind⟩ : Attempt).isRetry = true := by simp [Attempt.isRetry, hkind]
  constructor
  · intro m hm
    by_cases hmn : m = n
    · subst hmn
      rw [countRetx, AList.lookup_insert] at hm
      cases hm
    · rw [countRetx, AList.lookup_insert_ne hmn] at hm
      rw [tries_append, if_neg (by simp [Ne.symm hmn])]
      exact hc.absent m hm
  · intro m c hm
    by_cases hmn : m = n
    · subst hmn
      rw [countRetx, AList.lookup_insert] at hm
      rw [tries_append, if_pos ⟨rfl, hretry⟩, retransmissions_append]
      cases hl : s.retxCount.lookup m with
      | none =>
        rw [hl] at hm
        rw [if_pos ⟨rfl, hnew hl⟩, hc.absent m hl]
        exact ⟨Option.some.inj hm, Nat.succ_pos _⟩
      | some k =>
        rw [hl] at hm
        obtain ⟨htries, hpos⟩ := hc.count m k hl
        rw [htries]
        exact ⟨Option.some.inj hm, Nat.add_pos_left hpos _⟩
    · rw [countRetx, AList.lookup_insert_ne hmn] at hm
      rw [tries_append, retransmissions_append, if_neg (by simp [Ne.symm hmn]), if_neg (by simp [Ne.symm hmn])]
      exact hc.count m c hm

theorem counted_log (sch : Scheme κ) : LogPreserves sch RetxCounted where
  pop hs _ _ := hs.of_retxCount rfl
  resend := by
    intro s h n queue now hs _ _ _ _
    have hretry := hs.retry now (n := n) .retransmission (by simp) fun _ => rfl
    exact hretry.of_retxCount rfl
  fail := by
    intro s h n queue now reason hs _ _ _ hex
    obtain ⟨c, hc, -⟩ := hex
    have hretry := hs.retry now (n := n) .exhausted (by simp) fun hnone => by
      rw [hc] at hnone; cases hnone
    exact hretry.of_retxCount (sameSending_handleFail n reason (countRetx n (popRetx queue s))).retxCount
  skip hs _ _ := hs.of_retxCount rfl
  first now hs _ _ _ _ := (hs.first now _).of_retxCount rfl

/-! ## Runs -/

theorem RetxCounted.step (hs : RetxCounted s h) {e : Event} (he : enabled s e) :
    RetxCounted (step sch s e) (h ++ attemptsOf sch s e) :=
  (counted_log sch).step (hs.of_retxCount (sameSending_handle he).retxCount)

/-- The retransmission of an iteration is within the budget exactly if the condition holds. -/
theorem granted_iff (hm : -1 ≤ sch.maxRetriesOnTimeoutOrNack) (hs : RetxCounted s h)
    (hb : RetryBudget sch.maxRetriesOnTimeoutOrNack h) {now : Time} {n : ℕ} :
    Granted sch.maxRetriesOnTimeoutOrNack h ⟨now, n, if Exhausted sch n s then .exhausted else .retransmission⟩ ↔
      1 ≤ sch.maxRetriesOnTimeoutOrNack ∨ (sch.maxRetriesOnTimeoutOrNack = -1 ∧ n ∉ s.retxCount) := by
  have hle := retransmissions_le_tries n h
  cases hl : s.retxCount.lookup n with
  | none =>
    have hex : ¬ Exhausted sch n s := by
      rintro ⟨c, hc, -⟩
      rw [hl] at hc; cases hc
    have hmem : n ∉ s.retxCount := AList.lookup_eq_none.1 hl
    have htries := hs.absent n hl
    rw [if_neg hex]
    constructor
    · rintro ⟨hlt, -, -⟩
      by_cases hneg : sch.maxRetriesOnTimeoutOrNack = -1
      · exact .inr ⟨hneg, hmem⟩
      · have hpos := hlt (by omega) rfl
        exact .inl (by omega)
    · intro hc
      refine ⟨fun h0 _ => ?_, fun h0 _ heq => ?_, fun _ => by simp⟩
      · change (retransmissions n h : ℤ) < _
        omega
      · change (tries n h : ℤ) = _ at heq
        omega
  | some c =>
    obtain ⟨htries, hpos⟩ := hs.count n c hl
    have hmem : n ∈ s.retxCount := AList.lookup_isSome.1 (by rw [hl]; rfl)
    have hex : Exhausted sch n s ↔ sch.maxRetriesOnTimeoutOrNack < c + 1 :=
      ⟨fun ⟨c', hc', hlt⟩ => by rw [hl] at hc'; cases hc'; exact hlt, fun hlt => ⟨c, hl, hlt⟩⟩
    constructor
    · rintro ⟨-, -, hunlimited⟩
      refine .inl ?_
      by_contra hlt
      by_cases hneg : sch.maxRetriesOnTimeoutOrNack = -1
      · refine hunlimited hneg (if_pos (hex.2 ?_))
        omega
      · have hbound := hb.atMost (by omega) n
        omega
    · intro hc
      have hone : 1 ≤ sch.maxRetriesOnTimeoutOrNack := hc.resolve_right fun hr => hr.2 hmem
      refine ⟨fun _ hk => ?_, fun _ _ heq => ?_, fun hneg => ?_⟩
      · have hnot : ¬ Exhausted sch n s := by
          intro hyes
          rw [if_pos hyes] at hk; cases hk
        rw [hex] at hnot
        change (retransmissions n h : ℤ) < _
        omega
      · change (tries n h : ℤ) = _ at heq
        exact if_pos (hex.2 (by omega))
      · omega

theorem retryBudget_attempt_iff (hm : -1 ≤ sch.maxRetriesOnTimeoutOrNack) (now : Time) (hs : RetxCounted s h) :
    RetryBudget sch.maxRetriesOnTimeoutOrNack (h ++ attempt sch now s) ↔
      RetryBudget sch.maxRetriesOnTimeoutOrNack h ∧ WithinBudget sch.maxRetriesOnTimeoutOrNack s := by
  unfold attempt
  cases hq : s.retxQueue with
  | nil =>
    have hwithin : WithinBudget sch.maxRetriesOnTimeoutOrNack s := by
      rintro n ⟨-, hn, -⟩
      rw [hq] at hn; cases hn
    rw [and_iff_left hwithin]
    dsimp only
    split
    · rw [retryBudget_append]
      refine and_iff_left ⟨fun _ hk => ?_, fun _ hretry => ?_, fun _ hk => ?_⟩
      · cases hk
      · cases hretry
      · cases hk
    · rw [List.append_nil]
  | cons n queue =>
    have hhead : ∀ m, Retries m s → m = n := by
      rintro m ⟨-, hmh, -⟩
      rw [hq] at hmh
      exact (Option.some.inj hmh).symm
    dsimp only
    split
    · rename_i hretry
      rw [retryBudget_append]
      refine and_congr_right fun hb => (granted_iff hm hs hb).trans ?_
      exact ⟨fun hc m hm' => hhead m hm' ▸ hc, fun hw => hw n hretry⟩
    · rename_i hretry
      rw [List.append_nil]
      exact (and_iff_left fun m hm' => absurd (hhead m hm' ▸ hm') hretry).symm

theorem retryBudget_step_iff (hm : -1 ≤ sch.maxRetriesOnTimeoutOrNack) (hs : RetxCounted s h) {e : Event}
    (he : enabled s e) :
    RetryBudget sch.maxRetriesOnTimeoutOrNack (h ++ attemptsOf sch s e) ↔
      RetryBudget sch.maxRetriesOnTimeoutOrNack h ∧ KeepsBudget sch s e := by
  have hcount : (handle sch s e).state.retxCount = s.retxCount := (sameSending_handle he).retxCount
  unfold attemptsOf KeepsBudget
  cases hh : handle sch s e with
  | done t =>
    rw [List.append_nil]
    exact (and_iff_left trivial).symm
  | schedulePackets t =>
    rw [hh] at hcount
    have ht : RetxCounted t h := hs.of_retxCount hcount
    exact Loop.log_iff_each (I := fun x h => RetxCounted x.2 h) (fun x h _ hx => (counted_log sch).body x hx)
      (fun x h _ hx => retryBudget_attempt_iff hm e.now hx) ht

theorem counted_start (control : κ) (data : Data) : RetxCounted (start control data) [] :=
  ⟨fun _ _ => rfl, fun n c hl => by cases hl⟩

theorem retryBudget_run (hm : -1 ≤ sch.maxRetriesOnTimeoutOrNack) (now : Time) (control : κ) (data : Data) :
    RetryBudget sch.maxRetriesOnTimeoutOrNack (attempt sch now (start control data)) := by
  have hnil : RetryBudget sch.maxRetriesOnTimeoutOrNack [] := by
    refine ⟨fun hm _ => hm, fun _ before a after heq => ?_, fun _ a ha => by cases ha⟩
    exact absurd heq.symm (by simp)
  refine (retryBudget_attempt_iff hm now (counted_start control data)).2 ⟨hnil, ?_⟩
  rintro n ⟨-, hn, -⟩
  cases hn

theorem retryBudget_iff (sch : Scheme κ) (now : Time) (control : κ) (data : Data) (es : List Event)
    (hm : -1 ≤ sch.maxRetriesOnTimeoutOrNack) (hr : (machine sch).Runs (run sch now control data) es) :
    RetryBudget sch.maxRetriesOnTimeoutOrNack (history sch now control data es) ↔
      (machine sch).Each (KeepsBudget sch) (run sch now control data) es := by
  have hcounted := (counted_log sch).run now (counted_start control data)
  have hiff : RetryBudget sch.maxRetriesOnTimeoutOrNack (history sch now control data es) ↔ _ :=
    Machine.log_iff_each (m := machine sch) (I := RetxCounted) (fun s h e hs he => hs.step he)
      (fun s h e hs he => retryBudget_step_iff hm hs he) hcounted hr
  exact hiff.trans (and_iff_right (retryBudget_run hm now control data))

/-- The pipeline with default options but for the budget, with a window of 3. -/
def Aimd.withRetries (maxRetriesOnTimeoutOrNack : ℤ) : Scheme Aimd.Window :=
  { Aimd.pipeline 3 with maxRetriesOnTimeoutOrNack := maxRetriesOnTimeoutOrNack }

theorem retryBudget_iff_once :
    RetryBudget 1 (history (Aimd.withRetries 1) 0 (Aimd.initial (Aimd.withCwnd 3) .default) (packet 0 none)
        [.nack 10 1 .congestion, .nack 20 2 .congestion]) ↔
      (machine (Aimd.withRetries 1)).Each (KeepsBudget (Aimd.withRetries 1))
        (run (Aimd.withRetries 1) 0 (Aimd.initial (Aimd.withCwnd 3) .default) (packet 0 none))
        [.nack 10 1 .congestion, .nack 20 2 .congestion] :=
  retryBudget_iff (Aimd.withRetries 1) 0 _ (packet 0 none) _ (by decide) (by decide +kernel)

/-- With a budget of 0 the first segment is retransmitted, and with -1 its second retransmission fails. -/
theorem budget_exceeded :
    (machine (Aimd.withRetries 0)).Runs
        (run (Aimd.withRetries 0) 0 (Aimd.initial (Aimd.withCwnd 3) .default) (packet 0 none)) [.checkRto 2000 [1]] ∧
      ¬ RetryBudget 0 (history (Aimd.withRetries 0) 0 (Aimd.initial (Aimd.withCwnd 3) .default) (packet 0 none)
        [.checkRto 2000 [1]]) ∧
      (machine (Aimd.withRetries (-1))).Runs
        (run (Aimd.withRetries (-1)) 0 (Aimd.initial (Aimd.withCwnd 3) .default) (packet 0 none))
        [.nack 10 1 .congestion, .nack 20 2 .congestion] ∧
      ¬ RetryBudget (-1) (history (Aimd.withRetries (-1)) 0 (Aimd.initial (Aimd.withCwnd 3) .default) (packet 0 none)
        [.nack 10 1 .congestion, .nack 20 2 .congestion]) := by
  refine ⟨by decide +kernel, fun h => ?_, by decide +kernel, fun h => ?_⟩
  · have hle := h.atMost le_rfl 1
    revert hle
    decide +kernel
  · have hnone := h.unlimited rfl
    revert hnone
    decide +kernel

end NdnTools.Chunks.Adaptive
