/-
A transfer with the fixed-window pipeline comes to its end. When nothing is left to happen but
Interests from elsewhere and late callbacks of the discovery, everything has been written, unless an
exception was thrown; once a segment has been discovered, only so many events of catchunks are left;
and as long as nothing has failed, the events that complete the transfer can still happen.
-/
import NdnTools.Chunks.FixedWindow.EndKnown
import NdnTools.Chunks.Transfer.Safety

namespace NdnTools.Chunks

/-- Packets of a store with the numbers of all of it are the store. -/
theorem perm_of_segmentNos {producer : Producer} {bytes : Bytes} {store : List Data}
    (hpop : Producer.Populates producer bytes store) {ds : List Data}
    (hds : ∀ d ∈ ds, d ∈ store) (hnodup : (ds.map Data.segmentNo).Nodup)
    (hall : ∀ n < store.length, n ∈ ds.map Data.segmentNo) : ds.Perm store := by
  have hstore : (store.map Data.segmentNo).Nodup := by rw [hpop.numbered]; exact List.nodup_range
  refine (List.perm_ext_iff_of_nodup (List.Nodup.of_map _ hnodup) (List.Nodup.of_map _ hstore)).2
    fun d => ⟨hds d, fun hd => ?_⟩
  obtain ⟨d', hd', heq⟩ := List.mem_map.1 (hall _ (segmentNo_lt hpop hd))
  rwa [← List.inj_on_of_nodup_map hstore (hds d' hd') hd heq]

/-! ## The pipeline over the packets of a store -/

namespace FixedWindow

variable {producer : Producer} {bytes : Bytes} {store : List Data} {N : ℕ} {data : Data} {es : List Event}
  {s : FixedWindow}

/-- The invariants of the pipeline, whose end is that of the store. -/
theorem reached_inv (hpop : Producer.Populates producer bytes store) (hdata : data ∈ store)
    (h : (fixedWindow N).Reached store data es s) :
    Inv N (store.length - 1) s ∧ EndKnown (store.length - 1) data s := by
  have hfinal : ∀ d ∈ store, Chunks.FinalIs (store.length - 1) d := fun d hd l hl =>
    (Option.some.inj ((hpop.final d hd).symm.trans hl)).symm
  have hevents : ∀ e ∈ es, e.FinalIs (store.length - 1) ∧ e ≠ .cancel := by
    intro e he
    cases e with
    | data i d => exact ⟨hfinal d (h.fromStore _ he d rfl), nofun⟩
    | fail i reason => exact ⟨trivial, nofun⟩
    | cancel => exact absurd (h.uncancelled _ he) (by simp [fixedWindow])
  have hall : machine.Always (fun s => Inv N (store.length - 1) s ∧ EndKnown (store.length - 1) data s)
      (run N data) es :=
    Machine.always_of_inv
      (fun _ e hs he hc => ⟨inv_step e hs.1 he hc.2.1, (endKnown_step hs.1 hs.2 he hc.2.2).1⟩)
      ⟨inv_run N (hfinal data hdata), endKnown_run N (hpop.final data hdata)⟩ h.runs
      ((Machine.each_of_runs h.runs).and_of_mem hevents)
  rw [← h.exec]
  exact Machine.always_last _ _ hall

/-- A pipeline that has not failed and in which no fetcher runs has handed on every packet of the store
but the discovered one, and each of them once. -/
theorem handedOn_all (hN : 1 ≤ N) (hpop : Producer.Populates producer bytes store) (hdata : data ∈ store)
    (h : (fixedWindow N).Reached store data es s) (hfailures : s.failures = [])
    (hidle : ∀ i, (s.slotAt i).isRunning = false) :
    (data :: machine.log (fixedWindow N).handed (run N data) es).Perm store := by
  obtain ⟨hinv, hknown⟩ := reached_inv hpop hdata h
  have hgo : s.isStopping = false := by
    by_contra hst
    exact hknown.stopped (by simpa using hst) hfailures
  have hlive : Live N (store.length - 1) (fun _ => False) s := by
    rcases hinv.2 with ⟨hst, -⟩ | hlive
    · rw [hgo] at hst; cases hst
    · exact hlive
  have hquiet : ∀ slot ∈ s.segmentFetchers ++ s.replaced, slot.isRunning = false := by
    intro slot hslot
    rcases List.mem_append.1 hslot with hslot | hslot
    · obtain ⟨i, rfl⟩ := exists_slotAt hslot
      exact hidle i
    · exact hinv.1.ended slot hslot
  obtain ⟨-, -, hall⟩ := (hinv.sound hN).noStall hgo hquiet
  have hdelivered : s.delivered = (machine.log (fixedWindow N).handed (run N data) es).map Data.segmentNo := h.delivered
  refine perm_of_segmentNos hpop (fun d hd => ?_) ?_ fun n hn => ?_
  · rcases List.mem_cons.1 hd with rfl | hd
    · exact hdata
    · exact h.mem_store hd
  · rw [List.map_cons, List.nodup_cons, ← hdelivered]
    refine ⟨fun hmem => ?_, hinv.1.deliveredOnce⟩
    exact (hinv.1.below _ (hlive.deliveredAsked _ hmem)).2 hknown.excluded.symm
  · rw [List.map_cons, ← hdelivered]
    by_cases hne : n = s.excludedSegmentNo
    · rw [hne, hknown.excluded]
      exact List.mem_cons_self
    · exact List.mem_cons_of_mem _ (hall n (by omega) hne)

end FixedWindow

namespace Transfer

/-- When the validator has answered for every packet of the store, all of it has been written. -/
theorem Tracked.written [SegmentNames] {δ α σ β : Type} {x : Parties δ α σ β} {s : Transfer δ σ} {p : σ}
    {seen : List NamedData}
    {arrived : List Data} (h : Tracked x s seen arrived) (hvalidating : s.validating = [])
    (hp : s.pipeline = some p)
    (hall : ∀ data es, data ∈ x.store → x.pipeline.Reached x.store data es p →
      (data :: handedOn x data es).Perm x.store) :
    s.consumer.outputStream = x.input ∧ s.consumer.bufferedData.entries = [] := by
  cases h.phase with
  | discovering pipeline => rw [hp] at pipeline; cases pipeline
  | fetching p' data es pipeline signals data_mem reached perm =>
    rw [hp] at pipeline; cases pipeline
    rw [hvalidating, List.append_nil] at perm
    obtain ⟨c, hc, hout, hbuffer⟩ := consume_store (store_populates x) (perm.trans (hall data es data_mem reached))
    rw [h.consumed] at hc; cases hc
    exact ⟨hout, hbuffer⟩

variable [SegmentNames] {δ α : Type} {x : Parties δ α FixedWindow FixedWindow.Event}
  {s : Transfer δ FixedWindow} {N : ℕ}

/-! ## Nothing is left to happen -/

/-- Nothing can happen but that an Interest from elsewhere reaches the producer, or a late callback the
discovery, which has signalled. -/
def Quiet (x : Parties δ α FixedWindow FixedWindow.Event) (s : Transfer δ FixedWindow) : Prop :=
  ∀ e, enabled x s e → (∃ interest, e = .interest interest) ∨
    x.discovery.signals s.discover ≠ [] ∧ ∃ late, e = .discovery late

theorem Quiet.validating (h : Quiet x s) (hnone : s.thrown = none) : s.validating = [] := by
  by_contra hne
  obtain ⟨d, ds, hds⟩ := List.exists_cons_of_ne_nil hne
  rcases h (.validated d) ⟨hnone, by rw [hds]; exact List.mem_cons_self⟩ with ⟨_, heq⟩ | ⟨-, _, heq⟩
  · cases heq
  · cases heq

/-- A transfer that has come to rest is complete. -/
theorem complete (hx : x.pipeline = fixedWindow N) (hN : 1 ≤ N) {seen : List NamedData} {arrived : List Data}
    (h : Tracked x s seen arrived) (hvalidating : s.validating = [])
    (hidle : ∃ p, s.pipeline = some p ∧ p.failures = [] ∧ ∀ i, (p.slotAt i).isRunning = false) :
    s.consumer.outputStream = x.input ∧ s.consumer.bufferedData.entries = [] := by
  obtain ⟨p, hp, hfailures, hslots⟩ := hidle
  refine h.written hvalidating hp fun data es hdata reached => ?_
  unfold handedOn
  rw [hx] at reached ⊢
  exact FixedWindow.handedOn_all hN (store_populates x) hdata reached hfailures hslots

theorem quiet_pipeline (hx : x.pipeline = fixedWindow N) {seen : List NamedData} {arrived : List Data}
    (h : Tracked x s seen arrived) (hnone : s.thrown = none) (hq : Quiet x s) :
    ∃ p, s.pipeline = some p ∧ p.failures = [] ∧ ∀ i, (p.slotAt i).isRunning = false := by
  cases h.phase with
  | discovering pipeline signals =>
    -- the discovery waits for an answer or for a timer
    obtain ⟨e, he, hpacket⟩ := x.discovery.waits _ _ h.discovery signals
    rcases hq (.discovery e) ⟨hnone, he, fun nd hnd => by rw [hpacket] at hnd; cases hnd⟩ with ⟨_, heq⟩ | ⟨hne, -⟩
    · cases heq
    · exact absurd signals hne
  | fetching p data es pipeline signals data_mem reached perm =>
    refine ⟨p, pipeline, ?_, fun i => ?_⟩
    · by_contra hne
      obtain ⟨reason, reasons, hreasons⟩ := List.exists_cons_of_ne_nil hne
      have hmem : reason ∈ (x.pipeline.base p).failures := by
        rw [hx]
        show reason ∈ p.failures
        rw [hreasons]
        exact List.mem_cons_self
      rcases hq (.failure reason) ⟨hnone, p, pipeline, hmem⟩ with ⟨_, heq⟩ | ⟨-, _, heq⟩
      · cases heq
      · cases heq
    · by_contra hrun
      have hcan : x.pipeline.machine.enabled p (.fail i "") := by
        rw [hx]
        show (p.slotAt i).isRunning = true
        simpa using hrun
      have hcancel : x.pipeline.isCancel (.fail i "") = false := by rw [hx]; rfl
      have hpacket : x.pipeline.packet (.fail i "") = none := by rw [hx]; rfl
      have hfail : enabled x s (.pipeline (.fail i "")) :=
        ⟨hnone, hcancel, p, pipeline, hcan, fun d hd => by rw [hpacket] at hd; cases hd⟩
      rcases hq (.pipeline (.fail i "")) hfail with ⟨_, heq⟩ | ⟨-, _, heq⟩
      · cases heq
      · cases heq

/-- In every run: when nothing is left to happen, and no exception was thrown, all that putchunks was
given has been written, and nothing is left in the buffer. -/
theorem complete_of_quiet (x : Parties δ α FixedWindow FixedWindow.Event) (N : ℕ) (hx : x.pipeline = fixedWindow N)
    (hN : 1 ≤ N) (es : List (Event α FixedWindow.Event)) (hr : (machine x).Runs (start x) es) :
    (machine x).Always (fun s => s.thrown = none → Quiet x s →
      s.consumer.outputStream = x.input ∧ s.consumer.bufferedData.entries = []) (start x) es := by
  refine (inv_runs hr).imp fun s hs hnone hq => ?_
  obtain ⟨seen, arrived, h⟩ := hs.2 hnone
  exact complete hx hN h (hq.validating hnone) (quiet_pipeline hx h hnone hq)

omit [SegmentNames] in
/-- After its run nothing is left to happen to the video. -/
theorem quiet_video : letI := documentedNames; Quiet video ((machine video).exec (start video) videoRun) := by
  let := documentedNames
  intro e he
  have hrunning : ∀ p ∈ ((machine video).exec (start video) videoRun).pipeline,
      ∀ slot ∈ p.segmentFetchers, slot.isRunning = false := by decide
  have hidle : ∀ p ∈ ((machine video).exec (start video) videoRun).pipeline, ∀ i, (p.slotAt i).isRunning = false := by
    intro p hp i
    by_contra hrun
    rw [Bool.not_eq_false] at hrun
    rw [hrunning p hp _ (FixedWindow.slotAt_mem (FixedWindow.lt_length_of_running hrun))] at hrun
    cases hrun
  cases e with
  | interest interest => exact .inl ⟨interest, rfl⟩
  | discovery late => exact .inr ⟨by decide, late, rfl⟩
  | pipeline e =>
    obtain ⟨-, hcancel, p, hp, hen, -⟩ := he
    cases e with
    | data i d =>
      have hrun : (p.slotAt i).isRunning = true := hen.1
      rw [hidle p hp i] at hrun
      cases hrun
    | fail i reason =>
      have hrun : (p.slotAt i).isRunning = true := hen
      rw [hidle p hp i] at hrun
      cases hrun
    | cancel => cases hcancel
  | validated d => exact absurd he.2 List.not_mem_nil
  | rejected d reason => exact absurd he.2 List.not_mem_nil
  | failure reason =>
    obtain ⟨-, p, hp, hmem⟩ := he
    cases hp
    cases hmem

omit [SegmentNames] in
theorem complete_of_quiet_video :
    letI := documentedNames
    Quiet video ((machine video).exec (start video) videoRun) ∧
    ((machine video).exec (start video) videoRun).consumer.outputStream = [65, 66] ∧
    ((machine video).exec (start video) videoRun).consumer.bufferedData.entries = [] := by
  let := documentedNames
  have halways := complete_of_quiet video 2 rfl (by decide) videoRun (by decide)
  exact ⟨quiet_video, Machine.always_last _ _ halways rfl quiet_video⟩

/-! ## How much is left -/

/-- The events of catchunks once a segment has been discovered. -/
def Event.isFetching : Event α FixedWindow.Event → Bool
  | .interest _ | .discovery _ => false
  | .pipeline _ | .validated _ | .rejected _ _ | .failure _ => true

/-- A bound on the number of those events that are still to come: each fetcher ends and its packet is
validated, and one exception may be thrown. -/
def remaining (x : Parties δ α FixedWindow FixedWindow.Event) (s : Transfer δ FixedWindow) : ℕ :=
  match s.thrown, s.pipeline with
  | some _, _ => 0
  | none, none => 2 * (x.store.length + 1)
  | none, some p => 1 + 2 * p.pending + s.validating.length

section
omit [SegmentNames]

theorem remaining_onFailure (reason : String) (s : Transfer δ FixedWindow) : remaining x (onFailure reason s) = 0 := rfl

theorem remaining_going {p : FixedWindow} (hnone : s.thrown = none) (hp : s.pipeline = some p) :
    remaining x s = 1 + 2 * p.pending + s.validating.length := by
  simp only [remaining, hnone, hp]

theorem remaining_pos (hnone : s.thrown = none) : 0 < remaining x s := by
  unfold remaining
  rw [hnone]
  cases s.pipeline with
  | none => simp
  | some p => dsimp only; omega

theorem length_handed (hx : x.pipeline = fixedWindow N) (p : FixedWindow) (e : FixedWindow.Event) :
    (x.pipeline.handed p e).length ≤ 1 := by
  have hdiff : (FixedWindow.step p e).delivered.length - p.delivered.length ≤ 1 := by
    rcases FixedWindow.handedOn_step p e with heq | ⟨_, _, -, heq⟩
    · rw [heq]; omega
    · rw [heq, List.length_append, List.length_singleton]; omega
  rw [hx]
  unfold PipelineClass.handed
  cases (fixedWindow N).packet e with
  | none => simp
  | some d =>
    rw [Option.toList_some, List.flatMap_singleton, List.length_replicate]
    exact hdiff

theorem store_pos (x : Parties δ α FixedWindow FixedWindow.Event) : 0 < x.store.length := by
  rw [(store_populates x).count]
  omega

end

theorem remaining_discovery (hx : x.pipeline = fixedWindow N) {seen : List NamedData} {arrived : List Data} {e : α}
    (hg : Genuine x s) (h : Tracked x s seen arrived) (he : enabled x s (.discovery e)) :
    remaining x (step x s (.discovery e)) ≤ remaining x s := by
  obtain ⟨hdiscovered, -, -⟩ := step_discovery h he
  generalize step x s (.discovery e) = s' at hdiscovered
  cases hdiscovered with
  | silent signals => exact le_rfl
  | failed reason => rw [remaining_onFailure]; exact Nat.zero_le _
  | started data mem before signals =>
    cases h.phase with
    | fetching _ _ _ _ some => exact absurd before some
    | discovering pipeline _ _ validating =>
      have hlt := store_pos x
      have hpending : (x.pipeline.run data).pending ≤ x.store.length - 1 + 1 := by
        rw [hx]
        exact FixedWindow.pending_run N ((store_populates x).final data (hg.packets data mem))
      have hbefore : remaining x s = 2 * (x.store.length + 1) := by simp only [remaining, he.1, pipeline]
      have hafter : remaining x (startPipeline x data { s with discover := x.discovery.machine.step s.discover e }) =
          1 + 2 * (x.pipeline.run data).pending + (s.validating ++ [data]).length := remaining_going he.1 rfl
      rw [hbefore, hafter, validating, List.nil_append, List.length_singleton]
      omega

theorem remaining_pipeline (hx : x.pipeline = fixedWindow N) {seen : List NamedData} {arrived : List Data}
    {e : FixedWindow.Event} (h : Tracked x s seen arrived) (he : enabled x s (.pipeline e)) :
    remaining x (step x s (.pipeline e)) < remaining x s := by
  obtain ⟨hnone, hcancel, p, hmem, hen, -⟩ := he
  have hp : s.pipeline = some p := hmem
  have hhanded := length_handed hx p e
  cases h.phase with
  | discovering pipeline => rw [hp] at pipeline; cases pipeline
  | fetching p' data es pipeline signals data_mem reached perm =>
    rw [hp] at pipeline; cases pipeline
    rw [step_pipeline hp, remaining_going hnone hp]
    rw [hx] at reached hcancel hen
    obtain ⟨hinv, hknown⟩ := FixedWindow.reached_inv (store_populates x) data_mem reached
    have hne : e ≠ .cancel := by
      rintro rfl
      cases hcancel
    have hlt := (FixedWindow.endKnown_step hinv hknown hen hne).2
    have hafter : remaining x
        { validate (x.pipeline.handed p e) s with pipeline := some (x.pipeline.machine.step p e) } =
        1 + 2 * (x.pipeline.machine.step p e).pending + (s.validating ++ x.pipeline.handed p e).length :=
      remaining_going hnone rfl
    have hstep : x.pipeline.machine.step p e = FixedWindow.step p e := by rw [hx]; rfl
    rw [hafter, List.length_append, hstep]
    omega

/-- A validated packet is one less to come. -/
theorem remaining_validated {seen : List NamedData} {arrived : List Data} {d : Data} (hg : Genuine x s)
    (h : Tracked x s seen arrived) (he : enabled x s (.validated d)) :
    remaining x (step x s (.validated d)) < remaining x s := by
  obtain ⟨hnone, hd⟩ := he
  obtain ⟨c, -, hstep⟩ := step_validated (x := x) (s := s) (hg.validating d hd)
  cases h.phase with
  | discovering _ _ _ validating => rw [validating] at hd; cases hd
  | fetching p data es pipeline signals data_mem reached perm =>
    have hafter : remaining x { s with validating := s.validating.erase d, consumer := c } =
        1 + 2 * p.pending + (s.validating.erase d).length := remaining_going hnone pipeline
    have hlen := List.length_erase_of_mem hd
    have hpos := List.length_pos_of_mem hd
    rw [hstep, hafter, remaining_going hnone pipeline]
    omega

theorem remaining_step (hx : x.pipeline = fixedWindow N) {e : Event α FixedWindow.Event} (h : Inv x s)
    (he : enabled x s e) :
    remaining x (step x s e) ≤ remaining x s ∧ (e.isFetching = true → remaining x (step x s e) < remaining x s) := by
  have htracked : s.thrown = none → ∃ seen arrived, Tracked x s seen arrived := h.2
  cases e with
  | interest interest => exact ⟨le_rfl, nofun⟩
  | discovery e =>
    obtain ⟨seen, arrived, ht⟩ := htracked he.1
    exact ⟨remaining_discovery hx h.1 ht he, nofun⟩
  | pipeline e =>
    obtain ⟨seen, arrived, ht⟩ := htracked he.1
    have hlt := remaining_pipeline hx ht he
    exact ⟨hlt.le, fun _ => hlt⟩
  | validated d =>
    obtain ⟨seen, arrived, ht⟩ := htracked he.1
    have hlt := remaining_validated h.1 ht he
    exact ⟨hlt.le, fun _ => hlt⟩
  | rejected d reason =>
    have hpos := remaining_pos (x := x) he.1
    exact ⟨Nat.zero_le _, fun _ => hpos⟩
  | failure reason =>
    have hpos := remaining_pos (x := x) he.1
    exact ⟨Nat.zero_le _, fun _ => hpos⟩

/-- In every run, whatever the network does, at most so many events of catchunks follow the discovery. -/
theorem fetching_bounded (x : Parties δ α FixedWindow FixedWindow.Event) (N : ℕ) (hx : x.pipeline = fixedWindow N)
    (es : List (Event α FixedWindow.Event)) (hr : (machine x).Runs (start x) es) :
    es.countP Event.isFetching ≤ 2 * (x.store.length + 1) := by
  have hsum : es.countP Event.isFetching + remaining x ((machine x).exec (start x) es) ≤ remaining x (start x) :=
    Machine.countP_add_le (I := Inv x)
    (fun _ _ hs he => inv_step hs he) (fun _ _ hs he => (remaining_step hx hs he).1)
    (fun _ _ hs he => (remaining_step hx hs he).2) (inv_start x) hr
  have hstart : remaining x (start x) = 2 * (x.store.length + 1) := rfl
  omega

omit [SegmentNames] in
theorem fetching_bounded_video : videoRun.countP Event.isFetching ≤ 2 * (2 + 1) :=
  letI := documentedNames
  fetching_bounded video 2 rfl videoRun (by decide)

/-! ## What can still happen -/

/-- A pipeline is at work, and nothing has failed. -/
def Working (s : Transfer δ FixedWindow) : Prop := s.thrown = none ∧ ∃ p, s.pipeline = some p ∧ p.failures = []

theorem working_validated {d : Data} (hg : Genuine x s) (hw : Working s) (hd : d ∈ s.validating) :
    Working (step x s (.validated d)) := by
  obtain ⟨c, -, hstep⟩ := step_validated (x := x) (s := s) (hg.validating d hd)
  rw [hstep]
  exact hw

/-- The producer still has the segment that a fetcher waits for. -/
theorem working_fetched (hx : x.pipeline = fixedWindow N) (hlen : x.store.length ≤ 2 ^ 64) {seen : List NamedData}
    {arrived : List Data} (h : Tracked x s seen arrived) (hw : Working s) {p : FixedWindow} (hp : s.pipeline = some p)
    {i : ℕ} (hrun : (p.slotAt i).isRunning = true) : ∃ interest d,
      let answered := step x s (.interest interest)
      enabled x answered (.pipeline (.data i d)) ∧ Working (step x answered (.pipeline (.data i d))) := by
  obtain ⟨hnone, p', hp', hfailures⟩ := hw
  rw [hp] at hp'; cases hp'
  cases h.phase with
  | discovering pipeline => rw [hp] at pipeline; cases pipeline
  | fetching p' data es pipeline signals data_mem reached perm =>
    rw [hp] at pipeline; cases pipeline
    have hreached := reached
    rw [hx] at hreached
    obtain ⟨hinv, hknown⟩ := FixedWindow.reached_inv (store_populates x) data_mem hreached
    have hlive := FixedWindow.going_of_enabled hinv hrun
    have hlt : (p.slotAt i).2 < x.store.length := by
      have hpos := store_pos x
      have hin := hlive.fetching.inside i hrun
      by_contra hge
      exact hin ⟨hknown.known, by rw [hknown.last]; omega⟩
    have hseg : (x.store[(p.slotAt i).2]).segmentNo = (p.slotAt i).2 :=
      segmentNo_getElem (store_populates x).numbered hlt
    -- the Interest of the fetcher, which the network may have lost
    let interest := segmentInterest x.producer.versionedPrefix 0 false (p.slotAt i).2
    have hanswer : x.producer.onInterest x.matchesData x.store interest = some x.store[(p.slotAt i).2] := by
      rw [Producer.onInterest_segmentInterest (by omega), List.getElem?_eq_getElem hlt]
    have hen : FixedWindow.enabled p (.data i x.store[(p.slotAt i).2]) := ⟨hrun, hseg⟩
    have hput : x.store[(p.slotAt i).2] ∈ (step x s (.interest interest)).packets := by
      refine List.mem_append_right _ ?_
      rw [hanswer]
      exact List.mem_singleton_self _
    refine ⟨interest, x.store[(p.slotAt i).2], ⟨hnone, ?_, p, hp, ?_, fun d hd => ?_⟩, ?_⟩
    · rw [hx]; rfl
    · rw [hx]; exact hen
    · rw [hx] at hd
      obtain rfl : x.store[(p.slotAt i).2] = d := Option.some.inj hd
      exact hput
    · have hp' : (step x s (.interest interest)).pipeline = some p := hp
      rw [step_pipeline hp']
      refine ⟨hnone, _, rfl, ?_⟩
      have hstep : x.pipeline.machine.step p (.data i x.store[(p.slotAt i).2]) =
          FixedWindow.step p (.data i x.store[(p.slotAt i).2]) := by rw [hx]; rfl
      rw [hstep, FixedWindow.failures_data hknown hinv hen]
      exact hfailures

theorem exists_completion (hx : x.pipeline = fixedWindow N) (hN : 1 ≤ N) (hlen : x.store.length ≤ 2 ^ 64) :
    ∀ (n : ℕ) (s : Transfer δ FixedWindow), remaining x s ≤ n → Inv x s → Working s →
      ∃ more, (machine x).Runs s more ∧ Working ((machine x).exec s more) ∧
        ((machine x).exec s more).consumer.outputStream = x.input
  | 0, s, hn, _, hw => by
    have := remaining_pos (x := x) hw.1
    omega
  | n + 1, s, hn, h, hw => by
    have ⟨hnone, p, hp, hfailures⟩ := hw
    obtain ⟨seen, arrived, ht⟩ := h.2 hnone
    by_cases hvalidating : s.validating = []
    · by_cases hidle : ∀ i, (p.slotAt i).isRunning = false
      · exact ⟨[], trivial, hw, (complete hx hN ht hvalidating ⟨p, hp, hfailures, hidle⟩).1⟩
      · -- a fetcher runs, and its packet is put and arrives
        obtain ⟨i, hrun⟩ : ∃ i, (p.slotAt i).isRunning = true := by simpa using hidle
        obtain ⟨interest, d, hen, hworking⟩ := working_fetched hx hlen ht hw hp hrun
        have h' := inv_interest h interest
        have hlt := (remaining_step hx h' hen).2 rfl
        have hsame : remaining x (step x s (.interest interest)) = remaining x s := rfl
        obtain ⟨more, hruns, hout⟩ :=
          exists_completion hx hN hlen n _ (by omega) (inv_step h' hen) hworking
        exact ⟨.interest interest :: .pipeline (.data i d) :: more, ⟨trivial, hen, hruns⟩, hout⟩
    · obtain ⟨d, ds, hds⟩ := List.exists_cons_of_ne_nil hvalidating
      have hd : d ∈ s.validating := by rw [hds]; exact List.mem_cons_self
      have hen : enabled x s (.validated d) := ⟨hnone, hd⟩
      have hlt := (remaining_step hx h hen).2 rfl
      obtain ⟨more, hruns, hout⟩ :=
        exists_completion hx hN hlen n _ (by omega) (inv_step h hen) (working_validated h.1 hw hd)
      exact ⟨.validated d :: more, ⟨hen, hruns⟩, hout⟩

/-- Whatever the network has done so far, as long as nothing has failed a transfer that fetches can go
on to write all that putchunks was given. -/
theorem completable (x : Parties δ α FixedWindow FixedWindow.Event) (N : ℕ) (hx : x.pipeline = fixedWindow N)
    (hN : 1 ≤ N) (hlen : x.store.length ≤ 2 ^ 64) (es : List (Event α FixedWindow.Event))
    (hr : (machine x).Runs (start x) es) (hw : Working ((machine x).exec (start x) es)) :
    ∃ more, (machine x).Runs (start x) (es ++ more) ∧ Working ((machine x).exec (start x) (es ++ more)) ∧
      ((machine x).exec (start x) (es ++ more)).consumer.outputStream = x.input := by
  obtain ⟨more, hruns, hout⟩ := exists_completion hx hN hlen _ _ le_rfl (Machine.always_last _ _ (inv_runs hr)) hw
  refine ⟨more, (Machine.runs_append _ _ _ _).2 ⟨hr, hruns⟩, ?_⟩
  rw [Machine.exec_append]
  exact hout

omit [SegmentNames] in
/-- The Interest for the second segment was lost. -/
theorem completable_video :
    letI := documentedNames
    ∃ more, (machine video).Runs (start video) (videoRun.take 2 ++ more) ∧
      Working ((machine video).exec (start video) (videoRun.take 2 ++ more)) ∧
      ((machine video).exec (start video) (videoRun.take 2 ++ more)).consumer.outputStream = [65, 66] := by
  let := documentedNames
  exact completable video 2 rfl (by decide) (by decide) (videoRun.take 2) (by decide) ⟨rfl, _, rfl, rfl⟩

end Transfer

end NdnTools.Chunks
