/-
The fixed-window pipeline loses and repeats nothing, keeps to its window and does not stall.

`Live` is the invariant of a pipeline that goes on: every running fetcher is in the slot of one
requested segment that is not delivered; while nothing has failed, every requested segment of the
content is delivered or being fetched, and every slot is fetching unless all segments have been
requested; once something has failed, an earlier segment is still being fetched. `Recorded` is what
stays true of the record of the run when the pipeline stops.
-/
import NdnTools.Chunks.FixedWindow.Slots

namespace NdnTools.Chunks.FixedWindow

/-- The segments requested so far, in order. -/
def requestedNos (s : FixedWindow) : List ℕ := s.requested.map Prod.fst

/-- What the record of a run satisfies in every state. -/
structure Recorded (maxPipelineSize : ℕ) (s : FixedWindow) : Prop where
  size : s.segmentFetchers.length ≤ maxPipelineSize
  once : s.requestedNos.Nodup
  below : ∀ n ∈ s.requestedNos, n < s.nextSegmentNo ∧ n ≠ s.excludedSegmentNo
  known : ∀ r ∈ s.requested, ∀ last, r.2 = some last → r.1 ≤ last
  ended : ∀ slot ∈ s.replaced, slot.isRunning = false
  held : s.assertHeld = true
  deliveredOnce : s.delivered.Nodup

/-- The running fetchers: each for a requested segment of its own, not delivered yet and not known
to lie after the content. -/
structure Fetching (s : FixedWindow) : Prop where
  asked : ∀ i, (s.slotAt i).isRunning = true → (s.slotAt i).2 ∈ s.requestedNos
  fresh : ∀ i, (s.slotAt i).isRunning = true → (s.slotAt i).2 ∉ s.delivered
  inside : ∀ i, (s.slotAt i).isRunning = true → ¬ s.beyond (s.slotAt i).2
  distinct : ∀ i j, (s.slotAt i).isRunning = true → (s.slotAt j).isRunning = true →
    (s.slotAt i).2 = (s.slotAt j).2 → i = j

/-- All segments of the content have been requested, the excluded one apart. -/
def Exhausted (s : FixedWindow) : Prop :=
  s.hasFinalBlockId = true ∧ ∀ n ≤ s.lastSegmentNo, n ≠ s.excludedSegmentNo → n < s.nextSegmentNo

/-- The invariant of a pipeline that is not stopping; the slots in `free` may be idle. -/
structure Live (maxPipelineSize last : ℕ) (free : ℕ → Prop) (s : FixedWindow) : Prop where
  going : s.isStopping = false
  size : s.segmentFetchers.length = maxPipelineSize
  final : s.hasFinalBlockId = true → s.lastSegmentNo = last ∧ s.hasFailure = false
  fetching : Fetching s
  deliveredAsked : ∀ n ∈ s.delivered, n ∈ s.requestedNos
  askedAll : ∀ n < s.nextSegmentNo, n ≠ s.excludedSegmentNo → n ∈ s.requestedNos
  kept : s.hasFailure = false → ∀ n ∈ s.requestedNos, ¬ s.beyond n →
    n ∈ s.delivered ∨ ∃ i, (s.slotAt i).isRunning = true ∧ (s.slotAt i).2 = n
  busy : s.hasFailure = false → ∀ i < maxPipelineSize, ¬ free i →
    (s.slotAt i).isRunning = true ∨ Exhausted s
  failing : s.hasFailure = true → ∃ i, (s.slotAt i).isRunning = true

/-- The invariant of the runs. -/
def Inv (maxPipelineSize last : ℕ) (s : FixedWindow) : Prop :=
  Recorded maxPipelineSize s ∧
    ((s.isStopping = true ∧ s.segmentFetchers = []) ∨ Live maxPipelineSize last (fun _ => False) s)

variable {s : FixedWindow} {N L : ℕ} {free : ℕ → Prop}

/-- A step that requests and delivers nothing and gives up no slot. -/
structure SameRecord (s s' : FixedWindow) : Prop where
  size : s'.segmentFetchers.length = s.segmentFetchers.length
  requested : s'.requested = s.requested
  next : s'.nextSegmentNo = s.nextSegmentNo
  excluded : s'.excludedSegmentNo = s.excludedSegmentNo
  replaced : s'.replaced = s.replaced
  held : s'.assertHeld = s.assertHeld
  delivered : s'.delivered = s.delivered

theorem Recorded.of_same {s' : FixedWindow} (h : Recorded N s) (hs : SameRecord s s') : Recorded N s' where
  size := by rw [hs.size]; exact h.size
  once := by rw [requestedNos, hs.requested]; exact h.once
  below := by rw [requestedNos, hs.requested, hs.next, hs.excluded]; exact h.below
  known := by rw [hs.requested]; exact h.known
  ended := by rw [hs.replaced]; exact h.ended
  held := by rw [hs.held]; exact h.held
  deliveredOnce := by rw [hs.delivered]; exact h.deliveredOnce

theorem Live.mono {free' : ℕ → Prop} (h : Live N L free s) (hf : ∀ i < N, free i → free' i) : Live N L free' s :=
  { h with busy := fun hn i hi hfree => h.busy hn i hi fun hx => hfree (hf i hi hx) }

/-! ## Stopping -/

theorem recorded_cancel (h : Recorded N s) (hgo : s.isStopping = false) :
    Recorded N (cancel s) ∧ (cancel s).isStopping = true ∧ (cancel s).segmentFetchers = [] := by
  rw [cancel_of_going hgo]
  refine ⟨⟨Nat.zero_le _, h.once, h.below, h.known, fun slot hs => ?_, h.held, h.deliveredOnce⟩, rfl, rfl⟩
  rcases List.mem_append.1 hs with hs | hs
  · exact h.ended slot hs
  · obtain ⟨slot, -, rfl⟩ := List.mem_map.1 hs
    exact Slot.isRunning_cancel slot

/-- A failure stops the pipeline. -/
theorem inv_onFailure {reason : String} (h : Recorded N s) (hgo : s.isStopping = false) :
    Inv N L (onFailure reason s) := by
  obtain ⟨hr, hst, hfs⟩ := recorded_cancel h hgo
  rw [onFailure_of_going hgo]
  exact ⟨hr.of_same ⟨rfl, rfl, rfl, rfl, rfl, rfl, rfl⟩, .inl ⟨hst, hfs⟩⟩

/-! ## The next segment -/

theorem recorded_skipExcluded (h : Recorded N s) : Recorded N (skipExcluded s) := by
  rw [skipExcluded_eq]
  refine { h with below := fun n hn => ⟨?_, (h.below n hn).2⟩ }
  have hlt := (h.below n hn).1
  have hle := (skipExcluded_next (s := s)).2.1
  simp only
  omega

theorem live_skipExcluded (h : Live N L free s) (hex : s.beyond (skipExcluded s).nextSegmentNo) :
    Live N L (fun _ => False) (skipExcluded s) := by
  obtain ⟨-, hle, hlt⟩ := skipExcluded_next (s := s)
  rw [skipExcluded_eq]
  refine { h with askedAll := fun n hn hx => h.askedAll n (hlt n hn hx) hx,
                  busy := fun _ i _ _ => .inr ⟨hex.1, fun n hn _ => ?_⟩,
                  fetching := ⟨h.fetching.asked, h.fetching.fresh, h.fetching.inside, h.fetching.distinct⟩ }
  have := hex.2
  simp only at hn ⊢
  omega

theorem requestedNos_request (p : ℕ) :
    (request p s).requestedNos = s.requestedNos ++ [s.nextSegmentNo] := by
  simp [requestedNos, request]

/-- The slot of an ended fetcher may be given to a segment that was not requested before. -/
theorem recorded_request {p : ℕ} (h : Recorded N s) (hx : s.nextSegmentNo ≠ s.excludedSegmentNo)
    (hin : ¬ s.beyond s.nextSegmentNo) (hidle : (s.slotAt p).isRunning = false) : Recorded N (request p s) where
  size := by simpa [request] using h.size
  once := by
    rw [requestedNos_request]
    refine List.nodup_append.2 ⟨h.once, List.nodup_singleton _, fun a ha b hb => ?_⟩
    have := (h.below a ha).1
    rw [List.mem_singleton] at hb; omega
  below := fun n hn => by
    rw [requestedNos_request, List.mem_append, List.mem_singleton] at hn
    rcases hn with hn | rfl
    · obtain ⟨hlt, hne⟩ := h.below n hn
      exact ⟨by simp only [request]; omega, hne⟩
    · exact ⟨by simp only [request]; omega, hx⟩
  known := fun r hr last hl => by
    rcases List.mem_append.1 hr with hr | hr
    · exact h.known r hr last hl
    · rw [List.mem_singleton] at hr; subst hr
      simp only at hl
      split at hl
      · rename_i hf
        cases hl
        by_contra hlt
        exact hin ⟨hf, by simp only at hlt; omega⟩
      · cases hl
  ended := fun slot hs => by
    rcases List.mem_append.1 hs with hs | hs
    · exact h.ended slot hs
    · rw [List.mem_singleton] at hs; rw [hs]; exact hidle
  held := by simp [request, h.held, hidle]
  deliveredOnce := h.deliveredOnce

/-- A fetcher that runs after the request is the new one, or it was running before. -/
theorem running_request {p i : ℕ} (hp : p < s.segmentFetchers.length)
    (hi : ((request p s).slotAt i).isRunning = true) :
    (i = p ∧ ((request p s).slotAt i).2 = s.nextSegmentNo) ∨
      ((s.slotAt i).isRunning = true ∧ (request p s).slotAt i = s.slotAt i) := by
  have hslot := slotAt_request hp i
  by_cases hip : i = p
  · rw [if_pos hip] at hslot
    exact .inl ⟨hip, by rw [hslot]⟩
  · rw [if_neg hip] at hslot
    exact .inr ⟨hslot ▸ hi, hslot⟩

/-- An idle slot takes the next segment: the running fetchers stay apart. -/
theorem fetching_request {p : ℕ} (hr : Recorded N s) (h : Live N L free s) (hin : ¬ s.beyond s.nextSegmentNo)
    (hp : p < N) : Fetching (request p s) := by
  have hlen : p < s.segmentFetchers.length := by rw [h.size]; exact hp
  -- the number given out is new
  have hnew : s.nextSegmentNo ∉ s.requestedNos := by
    intro hn
    exact absurd (hr.below _ hn).1 (Nat.lt_irrefl _)
  have hother : ∀ {i}, (s.slotAt i).isRunning = true → (s.slotAt i).2 ≠ s.nextSegmentNo := by
    intro i hi he
    exact hnew (he ▸ h.fetching.asked i hi)
  constructor
  · intro i hi
    rw [requestedNos_request, List.mem_append, List.mem_singleton]
    rcases running_request hlen hi with ⟨-, heq⟩ | ⟨hi', heq⟩
    · exact .inr heq
    · rw [heq]
      exact .inl (h.fetching.asked i hi')
  · intro i hi
    rcases running_request hlen hi with ⟨-, heq⟩ | ⟨hi', heq⟩
    · rw [heq]
      exact fun hd => hnew (h.deliveredAsked _ hd)
    · rw [heq]
      exact h.fetching.fresh i hi'
  · intro i hi
    rcases running_request hlen hi with ⟨-, heq⟩ | ⟨hi', heq⟩
    · rw [heq]
      exact hin
    · rw [heq]
      exact h.fetching.inside i hi'
  · intro i j hi hj he
    rcases running_request hlen hi with ⟨hip, hie⟩ | ⟨hi', hie⟩ <;>
      rcases running_request hlen hj with ⟨hjp, hje⟩ | ⟨hj', hje⟩ <;> rw [hie, hje] at he
    · rw [hip, hjp]
    · exact absurd he.symm (hother hj')
    · exact absurd he (hother hi')
    · exact h.fetching.distinct i j hi' hj' he

theorem live_request {p : ℕ} (hr : Recorded N s) (h : Live N L free s) (hin : ¬ s.beyond s.nextSegmentNo)
    (hfail : s.hasFailure = false) (hp : p < N)
    (hidle : (s.slotAt p).isRunning = false) : Live N L (fun i => free i ∧ i ≠ p) (request p s) := by
  have hslot : ∀ i, (request p s).slotAt i = if i = p then (some .fetch, s.nextSegmentNo) else s.slotAt i :=
    slotAt_request (by rw [h.size]; exact hp)
  have hkeep : ∀ i, (s.slotAt i).isRunning = true → (request p s).slotAt i = s.slotAt i := by
    intro i hi
    rw [hslot, if_neg]
    rintro rfl
    rw [hidle] at hi; cases hi
  refine { going := h.going, size := ?_, final := h.final, fetching := fetching_request hr h hin hp,
           deliveredAsked := ?_, askedAll := ?_, kept := ?_, busy := ?_, failing := ?_ }
  · simpa [request] using h.size
  · intro n hn
    rw [requestedNos_request]
    exact List.mem_append_left _ (h.deliveredAsked n hn)
  · intro n hn hne
    rw [requestedNos_request, List.mem_append, List.mem_singleton]
    rcases Nat.lt_succ_iff_lt_or_eq.1 hn with hn | hn
    · exact .inl (h.askedAll n hn hne)
    · exact .inr hn
  · intro _ n hn hb
    rw [requestedNos_request, List.mem_append, List.mem_singleton] at hn
    rcases hn with hn | rfl
    · rcases h.kept hfail n hn hb with hd | ⟨i, hi, he⟩
      · exact .inl hd
      · exact .inr ⟨i, by rw [hkeep i hi]; exact ⟨hi, he⟩⟩
    · -- the new segment is in the slot `p`
      refine .inr ⟨p, ?_⟩
      rw [hslot, if_pos rfl]
      exact ⟨rfl, rfl⟩
  · intro _ i hi hfree
    by_cases hip : i = p
    · left
      rw [hslot, if_pos hip]; rfl
    · rcases h.busy hfail i hi fun hf => hfree ⟨hf, hip⟩ with hrun | ⟨hfin, hall⟩
      · left
        rw [hkeep i hrun]; exact hrun
      · exact .inr ⟨hfin, fun n hn hne => Nat.lt_succ_of_lt (hall n hn hne)⟩
  · intro hf
    rw [show (request p s).hasFailure = s.hasFailure from rfl, hfail] at hf
    cases hf

/-- `fetchNextSegment` for an idle slot of a pipeline without failures: the slot is fetching
afterwards, or all segments have been requested. -/
theorem fetchNextSegment_live {p : ℕ} (hr : Recorded N s) (h : Live N L free s) (hfail : s.hasFailure = false)
    (hp : p < N) (hidle : (s.slotAt p).isRunning = false) :
    Recorded N (fetchNextSegment p s).2 ∧ (fetchNextSegment p s).2.hasFailure = false ∧
      ((fetchNextSegment p s).1 = false ∧ Live N L (fun _ => False) (fetchNextSegment p s).2 ∨
       (fetchNextSegment p s).1 = true ∧ Live N L (fun i => free i ∧ i ≠ p) (fetchNextSegment p s).2 ∧
        ∀ i, i ≠ p → (fetchNextSegment p s).2.slotAt i = s.slotAt i) := by
  have hr' := recorded_skipExcluded hr
  rcases fetchNextSegment_cases p h.going hfail with ⟨hb, heq⟩ | ⟨hb, heq⟩
  · rw [heq]
    exact ⟨hr', by rw [skipExcluded_eq]; exact hfail, .inl ⟨rfl, live_skipExcluded h hb⟩⟩
  · rw [heq]
    obtain ⟨hx, hle, hlt⟩ := skipExcluded_next (s := s)
    have h' : Live N L free (skipExcluded s) := by
      rw [skipExcluded_eq]
      exact { h with
        askedAll := fun n hn hne => h.askedAll n (hlt n hn hne) hne
        fetching := ⟨h.fetching.asked, h.fetching.fresh, h.fetching.inside, h.fetching.distinct⟩
        busy := fun hn i hi hf => (h.busy hn i hi hf).imp id fun he =>
          ⟨he.1, fun n hn hne => lt_of_lt_of_le (he.2 n hn hne) hle⟩ }
    rw [skipExcluded_eq] at hr' h' hb ⊢
    refine ⟨recorded_request hr' hx hb hidle, hfail, .inr ⟨rfl, live_request hr' h' hb hfail hp hidle, ?_⟩⟩
    intro i hi
    rw [slotAt_request (by simp only [h.size]; exact hp), if_neg hi]
    rfl

/-! ## The start -/

theorem requestLoop_inv : ∀ (n p : ℕ) (s : FixedWindow), p + n = N → Recorded N s →
    Live N L (fun i => p ≤ i) s → s.hasFailure = false → (∀ i, p ≤ i → (s.slotAt i).isRunning = false) →
    Inv N L (requestLoop n p s)
  | 0, p, s, hn, hr, h, _, _ => ⟨hr, .inr (h.mono fun i hi hp => by omega)⟩
  | n + 1, p, s, hn, hr, h, hfail, hidle => by
    obtain ⟨hr', hfail', hcase⟩ := fetchNextSegment_live (p := p) hr h hfail (by omega) (hidle p le_rfl)
    rw [requestLoop]
    rcases hcase with ⟨hret, h'⟩ | ⟨hret, h', hsame⟩
    · rw [show fetchNextSegment p s = (false, (fetchNextSegment p s).2) from Prod.ext hret rfl]
      exact ⟨hr', .inr h'⟩
    · rw [show fetchNextSegment p s = (true, (fetchNextSegment p s).2) from Prod.ext hret rfl]
      refine requestLoop_inv n (p + 1) _ (by omega) hr' (h'.mono fun i _ hi => by omega) hfail' fun i hi => ?_
      rw [hsame i (by omega)]
      exact hidle i (by omega)

theorem init_final {data : Data} (hd : FinalIs L data) (hf : (init N data).hasFinalBlockId = true) :
    (init N data).lastSegmentNo = L := by
  obtain ⟨l, hl⟩ := Option.isSome_iff_exists.1 hf
  simp only [init, PipelineInterests.setup, hl, Option.getD_some]
  exact hd l hl

theorem inv_run (N : ℕ) {data : Data} (hd : FinalIs L data) : Inv N L (run N data) := by
  have hidle : ∀ i, ((init N data).slotAt i).isRunning = false := fun i => by rw [slotAt_init]; rfl
  have hno : ∀ {i : ℕ} {P : Prop}, ((init N data).slotAt i).isRunning = true → P := fun {i _} hi => by
    rw [hidle i] at hi; cases hi
  have hempty : ∀ {n : ℕ} {P : Prop}, n ∈ (init N data).requestedNos → P := fun hn => by cases hn
  refine requestLoop_inv N 0 _ (by simp) ?_ ?_ rfl fun i _ => hidle i
  · exact
      { size := by simp [init]
        once := List.nodup_nil
        below := fun n hn => hempty hn
        known := fun r hr => by cases hr
        ended := fun slot hs => by cases hs
        held := rfl
        deliveredOnce := List.nodup_nil }
  · exact
      { going := rfl
        size := by simp [init]
        final := fun hf => ⟨init_final hd hf, rfl⟩
        fetching := ⟨fun _ hi => hno hi, fun _ hi => hno hi, fun _ hi => hno hi, fun _ _ hi => hno hi⟩
        deliveredAsked := fun n hn => by cases hn
        askedAll := fun n hn => absurd hn (Nat.not_lt_zero n)
        kept := fun _ n hn => hempty hn
        busy := fun _ i _ hi => absurd (Nat.zero_le i) hi
        failing := fun hf => by cases hf }

/-! ## The steps -/

/-- A stopped pipeline has no fetcher left, so only `cancel` can still be called. -/
theorem no_fetcher_of_stopped (h : s.segmentFetchers = []) (p : ℕ) : (s.slotAt p).isRunning = false := by
  unfold slotAt; rw [h]; rfl

theorem recorded_endFetcher {f : DataFetcher} {p : ℕ} (h : Recorded N s) : Recorded N (endFetcher f p s) :=
  h.of_same ⟨List.length_set, rfl, rfl, rfl, rfl, rfl, rfl⟩

/-- Fewer running fetchers, each still for the same segment. -/
theorem Fetching.shrink {s' : FixedWindow} (h : Fetching s) (hreq : s'.requestedNos = s.requestedNos)
    (hrun : ∀ i, (s'.slotAt i).isRunning = true → (s.slotAt i).isRunning = true ∧ (s'.slotAt i).2 = (s.slotAt i).2)
    (hdel : ∀ i, (s'.slotAt i).isRunning = true → (s.slotAt i).2 ∉ s.delivered → (s.slotAt i).2 ∉ s'.delivered)
    (hin : ∀ i, (s'.slotAt i).isRunning = true → ¬ s.beyond (s.slotAt i).2 → ¬ s'.beyond (s.slotAt i).2) :
    Fetching s' where
  asked i hi := by rw [hreq, (hrun i hi).2]; exact h.asked i (hrun i hi).1
  fresh i hi := by rw [(hrun i hi).2]; exact hdel i hi (h.fresh i (hrun i hi).1)
  inside i hi := by rw [(hrun i hi).2]; exact hin i hi (h.inside i (hrun i hi).1)
  distinct i j hi hj he := by
    rw [(hrun i hi).2, (hrun j hj).2] at he
    exact h.distinct i j (hrun i hi).1 (hrun j hj).1 he

/-- A fetcher that runs after the slot `p` has delivered is another one. -/
theorem running_endFetcher {p i : ℕ} (hrun : (s.slotAt p).isRunning = true)
    (hi : ((endFetcher ⟨true, false⟩ p s).slotAt i).isRunning = true) :
    i ≠ p ∧ (endFetcher ⟨true, false⟩ p s).slotAt i = s.slotAt i := by
  have hslot := slotAt_endFetcher (f := ⟨true, false⟩) (lt_length_of_running hrun) i
  by_cases hip : i = p
  · rw [hslot, if_pos hip] at hi
    cases hi
  · exact ⟨hip, by rw [hslot, if_neg hip]⟩

/-- The other fetchers are for other segments. -/
theorem fetching_delivered {p : ℕ} {d : Data} (h : Fetching s) (hrun : (s.slotAt p).isRunning = true)
    (hseg : d.segmentNo = (s.slotAt p).2) : Fetching (onData d (endFetcher ⟨true, false⟩ p s)) := by
  refine h.shrink rfl ?_ ?_ fun _ _ hb => hb
  · intro i hi
    obtain ⟨-, heq⟩ := running_endFetcher hrun hi
    rw [slotAt_onData] at hi ⊢
    exact ⟨heq ▸ hi, congrArg Prod.snd heq⟩
  · intro i hi hd hm
    obtain ⟨hip, heq⟩ := running_endFetcher hrun hi
    rw [slotAt_onData, heq] at hi
    rcases List.mem_append.1 hm with hm | hm
    · exact hd hm
    · rw [List.mem_singleton, hseg] at hm
      exact hip (h.distinct i p hi hrun hm)

/-- The slot `p` has delivered `d`: it is idle, and its segment is delivered for the first time. -/
theorem delivered_step {p : ℕ} {d : Data} (hr : Recorded N s) (h : Live N L (fun _ => False) s)
    (hrun : (s.slotAt p).isRunning = true) (hseg : d.segmentNo = (s.slotAt p).2) :
    let s' := endFetcher ⟨true, false⟩ p s
    Recorded N (onData d s') ∧ (slotAt s' p).isRunning = false ∧
      (s.hasFailure = false → Live N L (fun i => i = p) (onData d s')) := by
  intro s'
  have hr' : Recorded N s' := recorded_endFetcher hr
  have hsame : ∀ {i}, i ≠ p → s'.slotAt i = s.slotAt i := fun {i} hi => by
    rw [slotAt_endFetcher (lt_length_of_running hrun), if_neg hi]
  refine ⟨⟨hr'.size, hr'.once, hr'.below, hr'.known, hr'.ended, hr'.held, ?_⟩, ?_, ?_⟩
  · refine List.nodup_append.2 ⟨hr.deliveredOnce, List.nodup_singleton _, ?_⟩
    intro a ha b hb
    rw [List.mem_singleton] at hb
    rintro rfl
    exact h.fetching.fresh p hrun (by rw [← hseg, ← hb]; exact ha)
  · rw [slotAt_endFetcher (lt_length_of_running hrun), if_pos rfl]
    rfl
  · intro hfail
    refine { going := h.going, size := ?_, final := h.final, fetching := fetching_delivered h.fetching hrun hseg,
             deliveredAsked := ?_, askedAll := h.askedAll, kept := ?_, busy := ?_, failing := ?_ }
    · simpa [s', endFetcher, onData] using h.size
    · intro n hn
      rcases List.mem_append.1 hn with hn | hn
      · exact h.deliveredAsked n hn
      · rw [List.mem_singleton.1 hn, hseg]
        exact h.fetching.asked p hrun
    · intro _ n hn hb
      rcases h.kept hfail n hn hb with hd | ⟨i, hi, rfl⟩
      · exact .inl (List.mem_append_left _ hd)
      · by_cases hip : i = p
        · left
          rw [hip, ← hseg]
          exact List.mem_append_right _ (List.mem_singleton_self _)
        · right
          refine ⟨i, ?_⟩
          rw [slotAt_onData, hsame hip]
          exact ⟨hi, rfl⟩
    · intro _ i hi hip
      rcases h.busy hfail i hi not_false with hi | hex
      · left
        rw [slotAt_onData, hsame hip]; exact hi
      · exact .inr hex
    · intro hf
      rw [show s.hasFailure = true from hf] at hfail
      cases hfail

/-- The last segment becomes known while nothing has failed. -/
theorem live_learn (hr : Recorded N s) (h : Live N L free s) (hfin : s.hasFinalBlockId = false)
    (hfail : s.hasFailure = false) : Live N L free (learn L s) where
  going := h.going
  size := by simpa [learn] using h.size
  final := fun _ => ⟨rfl, hfail⟩
  fetching := h.fetching.shrink rfl (fun i hi => by
      rw [slotAt_learn] at hi ⊢
      exact ⟨(Slot.isRunning_cancelBeyond.1 hi).1, Slot.cancelBeyond_snd _ _⟩)
    (fun _ _ hd => hd)
    (fun i hi _ hb => by
      rw [slotAt_learn] at hi
      have := (Slot.isRunning_cancelBeyond.1 hi).2
      have := hb.2
      simp only [learn] at this
      omega)
  deliveredAsked := h.deliveredAsked
  askedAll := h.askedAll
  kept := fun _ n hn hb => by
    rcases h.kept hfail n hn (fun hb' => by have := hb'.1; rw [hfin] at this; cases this) with hd | ⟨i, hi, rfl⟩
    · exact .inl hd
    · refine .inr ⟨i, ?_⟩
      rw [slotAt_learn]
      refine ⟨Slot.isRunning_cancelBeyond.2 ⟨hi, ?_⟩, Slot.cancelBeyond_snd _ _⟩
      by_contra hlt
      exact hb ⟨rfl, by simp only [learn]; omega⟩
  busy := fun _ i hi hf => by
    rcases h.busy hfail i hi hf with hrun | hex
    · by_cases hle : (s.slotAt i).2 ≤ L
      · exact .inl (by rw [slotAt_learn]; exact Slot.isRunning_cancelBeyond.2 ⟨hrun, hle⟩)
      · -- the slot is cancelled, and its segment shows that all of the content has been requested
        refine .inr ⟨rfl, fun n hn _ => ?_⟩
        have := (hr.below _ (h.fetching.asked i hrun)).1
        simp only [learn] at hn ⊢
        omega
    · have := hex.1; rw [hfin] at this; cases this
  failing := fun hf => by rw [show s.hasFailure = true from hf] at hfail; cases hfail

theorem inv_data {p : ℕ} {d : Data} (hr : Recorded N s) (h : Live N L (fun _ => False) s)
    (hrun : (s.slotAt p).isRunning = true) (hseg : d.segmentNo = (s.slotAt p).2) (hd : FinalIs L d) :
    Inv N L (step s (.data p d)) := by
  obtain ⟨hr', hidle, hlive⟩ := delivered_step (d := d) hr h hrun hseg
  have hp : p < N := by have := lt_length_of_running hrun; rw [h.size] at this; exact this
  have hgo : (endFetcher ⟨true, false⟩ p s).isStopping = false := h.going
  have hlearn : ∀ s' last, Recorded N s' → Recorded N (learn last s') := fun s' last h' =>
    h'.of_same ⟨List.length_map _, rfl, rfl, rfl, rfl, rfl, rfl⟩
  -- a failed slot of the content, or a failure before: the pipeline stops
  have hstop : ∀ last reason, Inv N L (onFailure reason
      { onData d (endFetcher ⟨true, false⟩ p s) with
        lastSegmentNo := last
        hasFinalBlockId := true
        segmentFetchers := (stopBeyond last (endFetcher ⟨true, false⟩ p s).segmentFetchers).1 }) := by
    intro last reason
    exact inv_onFailure (hr'.of_same ⟨stopBeyond_length last _, rfl, rfl, rfl, rfl, rfl, rfl⟩) hgo
  show Inv N L (handleData d p (endFetcher ⟨true, false⟩ p s))
  cases hfail : s.hasFailure with
  | true =>
    rcases handleData_cases d p hgo with ⟨-, heq⟩ | ⟨last, -, -, ⟨-, heq⟩ | ⟨slot, -, -, -, heq⟩⟩
    · rw [heq, fetchNextSegment_failure (s := onData d _) p hgo hfail]
      exact inv_onFailure hr' hgo
    · rw [heq, fetchNextSegment_failure (s := learn last (onData d _)) p hgo hfail]
      exact inv_onFailure (hlearn _ _ hr') hgo
    · rw [heq]
      exact hstop _ _
  | false =>
    have hl := hlive hfail
    -- the slot that has delivered is the only one that may be idle
    have hfetch : ∀ s', Recorded N s' → Live N L (fun i => i = p) s' → s'.hasFailure = false →
        (s'.slotAt p).isRunning = false → Inv N L (fetchNextSegment p s').2 := fun s' hrec h' hf hi => by
      obtain ⟨hr'', -, hcase⟩ := fetchNextSegment_live hrec h' hf hp hi
      rcases hcase with ⟨-, h''⟩ | ⟨-, h'', -⟩
      · exact ⟨hr'', .inr h''⟩
      · exact ⟨hr'', .inr (h''.mono fun i _ hi => hi.2 hi.1)⟩
    rcases handleData_cases d p hgo with ⟨-, heq⟩ | ⟨last, hfin, hlast, ⟨-, heq⟩ | ⟨slot, hm, herr, -, heq⟩⟩
    · rw [heq]
      exact hfetch _ hr' hl hfail hidle
    · obtain rfl := hd last hlast
      rw [heq]
      refine hfetch _ (hlearn _ _ hr') (live_learn hr' hl hfin hfail) hfail ?_
      rw [slotAt_learn, slotAt_onData, ← Bool.not_eq_true, Slot.isRunning_cancelBeyond, hidle]
      simp
    · rw [heq]
      exact hstop _ _

/-- The first failure before the end is known leaves the fetchers of earlier segments running. -/
theorem live_failed {p n : ℕ} (h : Live N L (fun _ => False) s) (hrun : (s.slotAt p).isRunning = true)
    (hfin : s.hasFinalBlockId = false) {s' : FixedWindow}
    (hs' : s' = { failSlot p s with segmentFetchers := (failSlot p s).segmentFetchers.map (Slot.cancelBeyond n) })
    (hsome : ∃ i, (s'.slotAt i).isRunning = true) :
    Live N L (fun _ => False) { s' with hasFailure := true } := by
  have hslot : ∀ i, s'.slotAt i =
      (if i = p then (some ⟨false, true⟩, (s.slotAt p).2) else s.slotAt i : Slot).cancelBeyond n := fun i => by
    rw [hs']
    refine (getD_map (cancelBeyond_unused n)).trans (congrArg (Slot.cancelBeyond n) ?_)
    exact slotAt_endFetcher (lt_length_of_running hrun) i
  subst hs'
  refine
    { going := h.going
      size := by simpa [failSlot, endFetcher] using h.size
      final := fun hf => by rw [show s.hasFinalBlockId = true from hf] at hfin; cases hfin
      fetching := h.fetching.shrink rfl (fun i hi => ?_) (fun _ _ hd => hd) (fun _ _ hb => hb)
      deliveredAsked := h.deliveredAsked
      askedAll := h.askedAll
      kept := fun hf => by cases hf
      busy := fun hf => by cases hf
      failing := fun _ => hsome }
  have hi' := hslot i
  rw [show slotAt { failSlot p s with
      segmentFetchers := (failSlot p s).segmentFetchers.map (Slot.cancelBeyond n), hasFailure := true } i = _
      from hi'] at hi ⊢
  obtain ⟨hi, -⟩ := Slot.isRunning_cancelBeyond.1 hi
  rw [Slot.cancelBeyond_snd]
  split at hi
  · cases hi
  · rename_i hip
    rw [if_neg hip]
    exact ⟨hi, rfl⟩

theorem inv_fail {p : ℕ} {reason : String} (hr : Recorded N s) (h : Live N L (fun _ => False) s)
    (hrun : (s.slotAt p).isRunning = true) : Inv N L (step s (.fail p reason)) := by
  have hr' : Recorded N (failSlot p s) := hr.of_same ⟨List.length_set, rfl, rfl, rfl, rfl, rfl, rfl⟩
  have hseg : ((failSlot p s).slotAt p).2 = (s.slotAt p).2 := by
    rw [show (failSlot p s).slotAt p = _ from slotAt_endFetcher (lt_length_of_running hrun) p, if_pos rfl]
  show Inv N L (handleFail reason p (failSlot p s))
  have hcase := handleFail_cases (s := failSlot p s) reason p h.going
  rw [hseg] at hcase
  rcases hcase with ⟨-, -, heq⟩ | ⟨hb, -⟩ | ⟨hfin, s', hs', heq | ⟨heq, hsome⟩⟩
  · rw [heq]; exact inv_onFailure hr' h.going
  · exact absurd hb (h.fetching.inside p hrun)
  · rw [heq, hs']
    exact inv_onFailure (hr'.of_same ⟨List.length_map _, rfl, rfl, rfl, rfl, rfl, rfl⟩) h.going
  · rw [heq]
    refine ⟨?_, .inr (live_failed h hrun hfin hs' hsome)⟩
    rw [hs']
    exact hr'.of_same ⟨List.length_map _, rfl, rfl, rfl, rfl, rfl, rfl⟩

/-- All FinalBlockIds are those of a content that ends with segment `last`. -/
def Event.FinalIs (last : ℕ) : Event → Prop
  | .data _ d => Chunks.FinalIs last d
  | _ => True

theorem inv_step (e : Event) (h : Inv N L s) (he : enabled s e) (hd : e.FinalIs L) : Inv N L (step s e) := by
  obtain ⟨hr, ⟨hst, hfs⟩ | h⟩ := h
  · cases e with
    | data p d => have := he.1; rw [no_fetcher_of_stopped hfs] at this; cases this
    | fail p reason => rw [enabled, no_fetcher_of_stopped hfs] at he; cases he
    | cancel =>
      have heq : step s .cancel = s := by simp [step, cancel, hst]
      rw [heq]
      exact ⟨hr, .inl ⟨hst, hfs⟩⟩
  · cases e with
    | data p d => exact inv_data hr h he.1 he.2 hd
    | fail p reason => exact inv_fail hr h he
    | cancel =>
      obtain ⟨hr', hst, hfs⟩ := recorded_cancel hr h.going
      exact ⟨hr', .inl ⟨hst, hfs⟩⟩

/-! ## No loss, no repetition, bounded window, no stall -/

/-- What a fixed-window pipeline of `maxPipelineSize` slots promises about a content `0, …, last`. -/
structure Sound (maxPipelineSize last : ℕ) (s : FixedWindow) : Prop where
  requestedOnce : s.requestedNos.Nodup
  excludedSkipped : s.excludedSegmentNo ∉ s.requestedNos
  withinFinal : ∀ r ∈ s.requested, ∀ l, r.2 = some l → r.1 ≤ l
  bounded : (s.segmentFetchers ++ s.replaced).countP Slot.isRunning ≤ maxPipelineSize
  assertHeld : s.assertHeld = true
  deliveredOnce : s.delivered.Nodup
  noStall : s.isStopping = false → (∀ slot ∈ s.segmentFetchers ++ s.replaced, slot.isRunning = false) →
    s.hasFinalBlockId = true ∧ s.lastSegmentNo = last ∧
      ∀ n ≤ last, n ≠ s.excludedSegmentNo → n ∈ s.delivered

theorem Inv.sound (hN : 1 ≤ N) (h : Inv N L s) : Sound N L s := by
  obtain ⟨hr, hcase⟩ := h
  refine ⟨hr.once, fun hm => (hr.below _ hm).2 rfl, hr.known, ?_, hr.held, hr.deliveredOnce, fun hgo hidle => ?_⟩
  · rw [List.countP_append, (List.countP_eq_zero (l := s.replaced)).2 fun slot hs => by rw [hr.ended slot hs]; simp]
    exact List.countP_le_length.trans hr.size
  · rcases hcase with ⟨hst, -⟩ | h
    · rw [hgo] at hst; cases hst
    -- a failure would leave a fetcher running, and so would a segment not requested yet
    have hno : ∀ i, (s.slotAt i).isRunning = true → False := fun i hi => by
      rw [hidle _ (List.mem_append_left _ (slotAt_mem (lt_length_of_running hi)))] at hi; cases hi
    have hfail : s.hasFailure = false := by
      by_contra hf
      obtain ⟨i, hi⟩ := h.failing (by simpa using hf)
      exact hno i hi
    rcases h.busy hfail 0 hN not_false with hi | ⟨hfin, hall⟩
    · exact absurd hi (hno 0)
    · have hlast := (h.final hfin).1
      refine ⟨hfin, hlast, fun n hn hne => ?_⟩
      have hask := h.askedAll n (hall n (by omega) hne) hne
      rcases h.kept hfail n hask (fun hb => by have := hb.2; omega) with hd | ⟨i, hi, -⟩
      · exact hd
      · exact absurd hi (hno i)

/-- In every run over a content that ends with segment `last`, in every state: each segment is
requested once at most, never the excluded one and none known to lie after the content; at most
`maxPipelineSize` fetchers run; a segment is delivered once at most; and when no fetcher runs and
the pipeline goes on, the whole content has been delivered. -/
theorem runs_sound (maxPipelineSize last : ℕ) (hsize : 1 ≤ maxPipelineSize) (data : Data)
    (hdata : FinalIs last data) (es : List Event) (hruns : machine.Runs (run maxPipelineSize data) es)
    (hfinal : machine.Each (fun _ e => e.FinalIs last) (run maxPipelineSize data) es) :
    machine.Always (Sound maxPipelineSize last) (run maxPipelineSize data) es := by
  have hinv : machine.Always (Inv maxPipelineSize last) (run maxPipelineSize data) es :=
    Machine.always_of_inv (fun _ e h he hc => inv_step e h he hc) (inv_run maxPipelineSize hdata) hruns hfinal
  exact hinv.imp fun _ h => h.sound hsize

/-- Two slots, segment 0 discovered: segment 2 arrives before segment 1. -/
theorem runs_sound_reordered :
    machine.Always (Sound 2 2) (run 2 (packet 0 none)) [.data 1 (packet 2 (some 2)), .data 0 (packet 1 none)] :=
  runs_sound 2 2 (by decide) (packet 0 none) (by simp [FinalIs, packet])
    [.data 1 (packet 2 (some 2)), .data 0 (packet 1 none)]
    (by simp only [Machine.runs_cons, Machine.runs_nil, machine]; decide)
    (by simp [Machine.each_cons, Event.FinalIs, FinalIs, packet])

end NdnTools.Chunks.FixedWindow
