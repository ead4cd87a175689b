/-
When no requested segment is forgotten: every number that was given out, up to the last segment, is
delivered, in flight, or on the retransmission queue. A failure before the last segment is known
gives the failed segment and all that follow up, and `m_failedSegNo` tells whether one of them
belongs to the content once the last segment is known. A later failure overwrites it, so a segment is
forgotten when the last failed one lies after the content and an earlier failed one does not.
-/
import NdnTools.Chunks.Adaptive.Keyed
import NdnTools.Chunks.Adaptive.Aimd

namespace NdnTools.Chunks.Adaptive

variable {κ : Type}

/-- The segment is delivered, in flight, or on the retransmission queue. -/
def Covered (n : ℕ) (s : Adaptive κ) : Prop :=
  n ∈ s.delivered ∨ s.segmentInfo.HasState n .firstTimeSent ∨ s.segmentInfo.HasState n .retransmitted ∨
    (s.segmentInfo.HasState n .inRetxQueue ∧ n ∈ s.retxQueue)

/-- No requested segment of the content is forgotten. -/
def NoneForgotten (s : Adaptive κ) : Prop :=
  s.isStopping = false → s.hasFailure = false →
    ∀ n < s.nextSegmentNo, n ≠ s.excludedSegmentNo → (s.hasFinalBlockId = true → n ≤ s.lastSegmentNo) → Covered n s

/-- When the last segment becomes known and the last failed one lies after it, so do all failed ones. -/
def failuresBeyond (κ : Type) : Points κ where
  learn s _ last := s.hasFailure = true → last < s.failedSegNo → ∀ f ∈ s.failed, last < f

instance : (failuresBeyond κ).Decides where
  requeue _ _ := isTrue trivial
  giveUp _ _ := isTrue trivial
  learn s _ last := inferInstanceAs (Decidable (s.hasFailure = true → last < s.failedSegNo → ∀ f ∈ s.failed, last < f))
  receive _ _ := isTrue trivial
  schedule _ := isTrue trivial
  resend _ _ := isTrue trivial

/-- The invariant: every requested segment of the content is covered, unless a segment up to it was
given up; `skip` is left out. -/
def Kept (skip : ℕ → Prop) (s : Adaptive κ) : Prop :=
  ∀ n, Requested n s → ¬ s.beyond n → ¬ skip n → Covered n s ∨ (s.hasFailure = true ∧ ∃ f ∈ s.failed, f ≤ n)

/-- Between events. -/
def Remembers (s : Adaptive κ) : Prop := Keyed s ∧ (s.isStopping = false → Kept (fun _ => False) s)

/-- In a callback. -/
def RemembersAt (n : ℕ) (s : Adaptive κ) : Prop := Called n s ∧ Kept (fun _ => False) s

variable {sch : Scheme κ} {s s' : Adaptive κ} {n m : ℕ}

/-! ## Covered segments -/

/-- A segment stays covered if its entry stays as it is. -/
theorem Covered.of_state (h : Covered n s) (s' : Adaptive κ) (hdel : s.delivered ⊆ s'.delivered)
    (hq : s.retxQueue ⊆ s'.retxQueue) (hl : s'.segmentInfo.lookup n = s.segmentInfo.lookup n) : Covered n s' := by
  have hst : ∀ st, s.segmentInfo.HasState n st → s'.segmentInfo.HasState n st := by
    rintro st ⟨info, hi, he⟩
    exact ⟨info, hl.trans hi, he⟩
  rcases h with hd | h | h | ⟨h, hm⟩
  · exact .inl (hdel hd)
  · exact .inr (.inl (hst _ h))
  · exact .inr (.inr (.inl (hst _ h)))
  · exact .inr (.inr (.inr ⟨hst _ h, hq hm⟩))

/-- An operation that forgets no segment outside `skip`. -/
theorem Kept.transfer {skip skip' : ℕ → Prop} (h : Kept skip s)
    (hreq : ∀ m, Requested m s' → ¬ s'.beyond m → ¬ skip' m →
      (Requested m s ∧ ¬ s.beyond m ∧ ¬ skip m) ∨ Covered m s')
    (hcov : ∀ m, Requested m s → ¬ skip' m → Covered m s → Covered m s')
    (hfail : s.hasFailure = true → s'.hasFailure = true) (hfailed : s.failed ⊆ s'.failed) : Kept skip' s' := by
  intro m hr hb hm
  rcases hreq m hr hb hm with ⟨hr, hb, hs⟩ | hc
  · rcases h m hr hb hs with hc | ⟨hf, f, hmem, hle⟩
    · exact .inl (hcov m hr hm hc)
    · exact .inr ⟨hfail hf, f, hfailed hmem, hle⟩
  · exact .inl hc

/-- An operation that changes no entry but that of the segment `n`, and drops nothing else. -/
structure Spares (n : ℕ) (s s' : Adaptive κ) : Prop where
  requested : ∀ m, Requested m s' → Requested m s
  beyond : ∀ m, s.beyond m → s'.beyond m
  delivered : s.delivered ⊆ s'.delivered
  queue : s.retxQueue ⊆ s'.retxQueue
  entries : ∀ m, m ≠ n → s'.segmentInfo.lookup m = s.segmentInfo.lookup m
  hasFailure : s.hasFailure = true → s'.hasFailure = true
  failed : s.failed ⊆ s'.failed

theorem Spares.refl (n : ℕ) (s : Adaptive κ) : Spares n s s := by
  constructor <;> simp

theorem Kept.update (h : Kept (fun _ => False) s) (hn : Covered n s') (hc : Spares n s s') :
    Kept (fun _ => False) s' := by
  refine h.transfer ?_ ?_ hc.hasFailure hc.failed
  · intro m hr hb _
    exact .inl ⟨hc.requested m hr, fun hb' => hb (hc.beyond m hb'), id⟩
  · intro m _ _ hm
    by_cases hmn : m = n
    · rw [hmn]; exact hn
    · exact hm.of_state _ hc.delivered hc.queue (hc.entries m hmn)

/-! ## The operations -/

theorem covered_requeue (n : ℕ) (s : Adaptive κ) : Covered n (requeue n s) := by
  refine .inr (.inr (.inr ⟨?_, List.mem_append_right _ (List.mem_singleton_self n)⟩))
  exact ⟨_, by rw [lookup_requeue, if_pos rfl], rfl⟩

theorem kept_requeue (h : Kept (fun _ => False) s) : Kept (fun _ => False) (requeue n s) := by
  apply h.update (covered_requeue n s)
  refine { Spares.refl n s with queue := ?_, entries := ?_ }
  · intro m hq
    exact List.mem_append_left _ hq
  · intro m hm
    rw [lookup_requeue, if_neg hm]

theorem kept_requeueAll :
    ∀ (ns : List ℕ) {s : Adaptive κ}, Kept (fun _ => False) s → Kept (fun _ => False) (requeueAll ns s)
  | [], _, h => h
  | _ :: ns, _, h => kept_requeueAll ns (kept_requeue h)

theorem kept_lost {now : Time} {k : ℕ} (h : Kept (fun _ => False) s) : Kept (fun _ => False) (lost sch now k s) := by
  obtain ⟨r, c, l, heq⟩ := lost_frame sch now k s
  rw [heq]; exact h

/-- A failed segment is given up with all that follow; those before it stay covered. -/
theorem kept_gaveUp {reason : String} {skip : ℕ → Prop} (h : Kept skip s) (hskip : ∀ m, skip m → m = n) :
    Kept (fun _ => False) (gaveUp n reason s) := by
  intro m hr hb _
  by_cases hlt : m < n
  · have hns : ¬ skip m := by
      intro hs
      have := hskip m hs
      omega
    rcases h m hr hb hns with hc | ⟨-, f, hf, hle⟩
    · refine .inl (hc.of_state (gaveUp n reason s) (fun _ hd => hd) (fun _ hq => hq) ?_)
      rw [lookup_gaveUp, if_pos hlt]
    · exact .inr ⟨rfl, f, List.mem_append_left _ hf, hle⟩
  · exact .inr ⟨rfl, n, List.mem_append_right _ (List.mem_singleton_self n), by omega⟩

theorem kept_handleFail {reason : String} {skip : ℕ → Prop} (hgo : s.isStopping = false) (h : Kept skip s)
    (hskip : ∀ m, skip m → m = n) :
    (handleFail n reason s).isStopping = false → Kept (fun _ => False) (handleFail n reason s) := by
  intro hgo'
  rcases handleFail_cases n reason hgo with ⟨-, -, heq⟩ | ⟨hb, heq⟩ | ⟨-, heq⟩
  · rw [heq] at hgo'
    exact absurd_of_going hgo' (isStopping_onFailure hgo)
  · -- the segment is known to lie after the content
    rw [heq]
    intro m hr hb' _
    refine h m hr hb' fun hs => hb' ?_
    rw [hskip m hs]; exact hb
  · rw [heq] at hgo' ⊢
    rcases giveUp_cases n reason s with ⟨-, heq⟩ | ⟨-, heq⟩
    · rw [heq] at hgo'
      exact absurd_of_going hgo' (isStopping_onFailure (s := dropped n s) hgo)
    · rw [heq]; exact kept_gaveUp h hskip

/-- The last segment becomes known while no failed segment belongs to the content. -/
theorem kept_learnt {last : ℕ} (h : Kept (fun _ => False) s) (hf : s.hasFinalBlockId = false)
    (hfail : s.hasFailure = true → ∀ f ∈ s.failed, last < f) : Kept (fun _ => False) (learnt last s) := by
  intro m hr hb _
  have hle : m ≤ last := by
    by_contra hlt
    exact hb ⟨rfl, Nat.not_le.1 hlt⟩
  have hnb : ¬ s.beyond m := by
    rintro ⟨hf', -⟩
    rw [hf] at hf'; cases hf'
  -- `m` is part of the content, so no failure so far can account for it
  rcases h m hr hnb id with hc | ⟨hfl, f, hmem, hfm⟩
  · refine .inl (hc.of_state (learnt last s) (fun _ hd => hd) (fun _ hq => hq) ?_)
    rw [lookup_learnt, if_pos hle]
  · have := hfail hfl f hmem; omega

theorem kept_duplicate (hk : Keyed s) (h : Kept (fun _ => False) s) (hdup : IsRetxReceived n s) :
    Kept (fun _ => False) (eraseInfo n (touch n s)) := by
  have hn : Covered n (eraseInfo n (touch n s)) := .inl (hk.received n hdup)
  apply h.update hn
  refine { Spares.refl n s with entries := ?_ }
  intro m hm
  rw [lookup_eraseInfo, if_neg hm, lookup_touch, if_neg hm]

theorem kept_accept {d : Data} {now : Time} (h : Kept (fun _ => False) s) :
    Kept (fun _ => False) (accept sch now d (touch d.segmentNo s)) := by
  have hl := fun m => lookup_accept sch now (touch d.segmentNo s) m d
  obtain ⟨c, i, heq⟩ := accept_frame sch now d (touch d.segmentNo s)
  rw [heq] at hl ⊢
  apply h.update (n := d.segmentNo) (.inl (List.mem_append_right _ (List.mem_singleton_self _)))
  refine { Spares.refl d.segmentNo s with delivered := ?_, entries := ?_ }
  · intro m hd
    exact List.mem_append_left _ hd
  · intro m hm
    rw [hl m, if_neg hm, lookup_touch, if_neg hm]

/-! ## Sending -/

/-- The first segment is taken off the queue: it may be forgotten for the moment. -/
theorem kept_popRetx {queue : List ℕ} (h : Kept (fun _ => False) s) (hq : s.retxQueue = n :: queue) :
    Kept (fun m => m = n) (popRetx queue s) := by
  refine h.transfer ?_ ?_ id fun _ hf => hf
  · intro m hr hb _
    exact .inl ⟨hr, hb, id⟩
  · intro m _ hm hc
    rcases hc with hd | hc | hc | ⟨hc, hmem⟩
    · exact .inl hd
    · exact .inr (.inl hc)
    · exact .inr (.inr (.inl hc))
    · rw [hq] at hmem
      exact .inr (.inr (.inr ⟨hc, (List.mem_cons.1 hmem).resolve_left hm⟩))

theorem kept_resend {now : Time} (h : Kept (fun m => m = n) s) : Kept (fun _ => False) (resend sch now n s) := by
  have hn : Covered n (resend sch now n s) := by
    have hl : (resend sch now n s).segmentInfo.lookup n = _ := lookup_resend
    rw [if_pos rfl] at hl
    exact .inr (.inr (.inl ⟨_, hl, rfl⟩))
  refine h.transfer ?_ ?_ id fun _ hf => hf
  · intro m hr hb _
    by_cases hmn : m = n
    · rw [hmn]; exact .inr hn
    · exact .inl ⟨hr, hb, hmn⟩
  · intro m _ _ hc
    by_cases hmn : m = n
    · rw [hmn]; exact hn
    · refine hc.of_state (resend sch now n s) (fun _ hd => hd) (fun _ hq => hq) ?_
      rw [lookup_resend, if_neg hmn]

/-- The numbers given out after `getNextSegmentNo`. -/
theorem requested_of_advance (h : Requested m (advance s)) : Requested m s ∨ m = nextNo s := by
  rcases Nat.lt_succ_iff_lt_or_eq.1 h.1 with hlt | heq
  · exact .inl ⟨(nextNo_spec s).2.2 m hlt h.2, h.2⟩
  · exact .inr heq

theorem kept_advance (hk : Keyed s) (h : Kept (fun _ => False) s)
    (hc : s.beyond (nextNo s) ∨ s.hasFailure = true) : Kept (fun _ => False) (advance s) := by
  intro m hr hb _
  rcases requested_of_advance hr with hr | rfl
  · exact h m hr hb id
  · rcases hc with hc | hf
    · exact absurd hc hb
    · -- the number comes after the segment that failed last
      have hlt := (hk.failed _ (hk.failing hf)).1
      have := (nextNo_spec s).2.1
      exact .inr ⟨hf, _, hk.failing hf, by omega⟩

theorem kept_sendFirst {now : Time} (hk : Keyed s) (h : Kept (fun _ => False) s) :
    Kept (fun _ => False) (sendFirst sch now (nextNo s) (advance s)) := by
  have hl := fun m => lookup_sendFirst (s := advance s) sch now m hk.nextNo_notMem
  refine h.transfer ?_ ?_ id fun _ hf => hf
  · intro m hr hb _
    rcases requested_of_advance hr with hr | rfl
    · exact .inl ⟨hr, hb, id⟩
    · exact .inr (.inr (.inl ⟨_, (hl _).trans (if_pos rfl), rfl⟩))
  · intro m hr _ hc
    have hne : m ≠ nextNo s := by
      have := hr.1
      have := (nextNo_spec s).2.1
      omega
    exact hc.of_state (sendFirst sch now (nextNo s) (advance s)) (fun _ hd => hd) (fun _ hq => hq)
      ((hl m).trans (if_neg hne))

/-! ## Runs -/

/-- What an iteration of `schedulePackets` keeps, whatever the conditions. -/
theorem remembers_loop (sch : Scheme κ) (P : Points κ) : LoopPreserves sch P Remembers where
  pop h hq hn := by
    refine ⟨keyed_popRetx h.1, ?_⟩
    -- a segment without an entry is not covered by the queue
    intro hgo m hr hb _
    rcases h.2 hgo m hr hb id with (hd | hc | hc | ⟨⟨info, hl, hst⟩, hmem⟩) | hf
    · exact .inl (.inl hd)
    · exact .inl (.inr (.inl hc))
    · exact .inl (.inr (.inr (.inl hc)))
    · rw [hq] at hmem
      rcases List.mem_cons.1 hmem with rfl | hmem
      · exact absurd (SegmentMap.mem_iff_lookup.2 ⟨info, hl⟩) hn
      · exact .inl (.inr (.inr (.inr ⟨⟨info, hl, hst⟩, hmem⟩)))
    · exact .inr hf
  going h hn := h.1.going_of_mem hn
  resend _ h hq hn _ _ := by
    have hpop := kept_popRetx (h.2 (h.1.going_of_mem hn)) hq
    refine ⟨keyed_resend (keyed_countRetx (keyed_popRetx h.1)) hn, ?_⟩
    intro _
    exact kept_resend (s := countRetx _ (popRetx _ _)) hpop
  fail _ h hq hn _ _ := by
    have hgo := h.1.going_of_mem hn
    have hpop := kept_popRetx (h.2 hgo) hq
    refine ⟨keyed_handleFail ⟨keyed_countRetx (keyed_popRetx h.1), hgo, h.1.mem_requested hn⟩, ?_⟩
    exact kept_handleFail (s := countRetx _ (popRetx _ _)) hgo hpop fun _ hm => hm
  skip h _ hc := by
    refine ⟨keyed_advance h.1, ?_⟩
    intro hgo
    rcases hc with hst | hc
    · exact absurd_of_going hgo hst
    · exact kept_advance h.1 (h.2 hgo) hc
  first _ h _ hgo _ _ := ⟨keyed_sendFirst h.1 hgo, fun _ => kept_sendFirst h.1 (h.2 hgo)⟩

theorem remembers_preserves (sch : Scheme κ) :
    Preserves sch (failuresBeyond κ) Remembers Remembers
      (fun n s => RemembersAt n s) (fun n s => RemembersAt n s) where
  going h := h.1.going
  idle h := ⟨h.1.keyed, fun _ => h.2⟩
  stopped id h hst := ⟨keyed_answered h.1 id, fun hgo => absurd_of_going hgo hst⟩
  cancel h hgo := ⟨keyed_cancel h.1 hgo, fun hgo' => absurd_of_going hgo' (isStopping_cancel _)⟩
  answered h hgo hn := ⟨called_answered h.1 hgo hn, h.2 hgo⟩
  requeue now h _ := ⟨keyed_lost (keyed_requeue h.1) now 1, fun _ => kept_lost (kept_requeue h.2)⟩
  expired now h hgo _ _ hmem := ⟨keyed_lost (keyed_requeueAll _ h.1 hgo hmem) now _, fun _ =>
    kept_lost (kept_requeueAll _ (h.2 hgo))⟩
  fail _ h _ := ⟨keyed_handleFail h.1, kept_handleFail h.1.going h.2 fun _ hf => hf.elim⟩
  learnStop h _ _ _ := ⟨keyed_onFailure (keyed_learnLast h.1.keyed _ h.1.going) h.1.going, fun hgo =>
    absurd_of_going hgo (isStopping_onFailure (s := learnLast _ _) h.1.going)⟩
  plain h := h
  learn h hf hc hlt := ⟨called_learnt h.1 _, kept_learnt h.2 hf fun hfail => hc hfail (hlt hfail)⟩
  ignored h hc hn := ⟨(keyed_preserves sch (failuresBeyond κ)).ignored h.1 hc hn, fun _ => h.2⟩
  duplicate h hdup _ := ⟨keyed_eraseInfo (keyed_touch h.1) _ h.1.going, fun _ => kept_duplicate h.1.keyed h.2 hdup⟩
  complete _ h _ _ _ _ := ⟨keyed_completed h.1, fun hgo => absurd_of_going hgo (isStopping_succeed _)⟩
  accept _ h _ _ _ _ := ⟨keyed_received h.1, fun _ => kept_accept h.2⟩
  schedule _ h hm := (remembers_loop sch (failuresBeyond κ)).loop h hm

theorem Remembers.noneForgotten (h : Remembers s) : NoneForgotten s := by
  intro hgo hfail n hn hx hle
  have hnb : ¬ s.beyond n := by
    rintro ⟨hf, hlt⟩
    have := hle hf
    omega
  rcases h.2 hgo n ⟨hn, hx⟩ hnb id with hc | ⟨hf, -⟩
  · exact hc
  · rw [hfail] at hf; cases hf

theorem remembers_run (sch : Scheme κ) (now : Time) (control : κ) (data : Data) :
    Remembers (run sch now control data) := by
  have hk := keyed_start control data
  have hs : Kept (fun _ => False) (start control data) := by
    intro n hr
    exact absurd hr.1 (Nat.not_lt_zero n)
  rcases run_cases sch now control data with ⟨hb, heq⟩ | ⟨-, heq⟩
  · rw [heq]; exact ⟨keyed_advance hk, fun _ => kept_advance hk hs (.inl hb)⟩
  · rw [heq]; exact ⟨keyed_sendFirst hk rfl, fun _ => kept_sendFirst hk hs⟩

/-- In every run in which the last segment, when it becomes known, lies before every failed segment
or not before the one that failed last, no requested segment is forgotten. -/
theorem noneForgotten_of_failuresBeyond (sch : Scheme κ) (now : Time) (control : κ) (data : Data) (es : List Event)
    (hruns : (machine sch).Runs (run sch now control data) es)
    (hfail : (machine sch).Each (Meets (failuresBeyond κ) sch) (run sch now control data) es) :
    (machine sch).Always NoneForgotten (run sch now control data) es := by
  have hinv : (machine sch).Always Remembers (run sch now control data) es :=
    Machine.always_of_inv (fun _ e hi he hm => (remembers_preserves sch).step hi he hm)
      (remembers_run sch now control data) hruns hfail
  exact hinv.imp fun _ h => h.noneForgotten

theorem noneForgotten_of_failuresBeyond_spurious :
    (machine (Aimd.pipeline 3)).Always NoneForgotten (Aimd.started 3 (packet 0 none))
      [.data 10 1 (packet 1 none), .nack 20 4 .noRoute, .data 30 2 (packet 2 (some 3))] :=
  noneForgotten_of_failuresBeyond (Aimd.pipeline 3) 0 _ (packet 0 none) _ (by decide +kernel) (by decide +kernel)

/-- Segments 2 to 5 time out, and 5 and 4 are retransmitted. Segment 3 fails, which leaves the new
Interest for 5 pending; then 5 fails too, and at last segment 2 arrives and tells that 3 is the last
segment. The failure of 5 is taken as harmless, and that of 3 is no longer known. -/
def lateFailure : List Event :=
  [.data 10 1 (packet 1 none), .checkRto 5000 [5, 4, 3, 2], .nack 5010 3 .noRoute, .nack 5020 6 .noRoute,
    .data 5030 2 (packet 2 (some 3))]

theorem late_failure_forgets :
    (machine (Aimd.pipeline 3)).Runs (Aimd.started 3 (packet 0 none)) lateFailure ∧
      ¬ (machine (Aimd.pipeline 3)).Always NoneForgotten (Aimd.started 3 (packet 0 none)) lateFailure := by
  refine ⟨by decide +kernel, fun h => ?_⟩
  have hlast := Machine.always_last _ _ h (by decide +kernel) (by decide +kernel) 3 (by decide +kernel)
    (by decide +kernel) (by decide +kernel)
  have hnone : ((machine (Aimd.pipeline 3)).exec (Aimd.started 3 (packet 0 none)) lateFailure).segmentInfo.lookup 3 =
      none := by
    decide +kernel
  rcases hlast with hd | ⟨info, hl, -⟩ | ⟨info, hl, -⟩ | ⟨⟨info, hl, -⟩, -⟩
  · revert hd; decide +kernel
  · rw [hnone] at hl; cases hl
  · rw [hnone] at hl; cases hl
  · rw [hnone] at hl; cases hl

end NdnTools.Chunks.Adaptive
