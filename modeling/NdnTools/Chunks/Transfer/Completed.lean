/-
A transfer with an adaptive pipeline that completes. If the pipeline has stopped because it has counted as many
segments as there are, and has handed on none of them twice, then everything has been written once the
validator has answered.
-/
import NdnTools.Chunks.Adaptive.Completed
import NdnTools.Chunks.Transfer.Completion

namespace NdnTools.Chunks

namespace Adaptive

variable {κ : Type} {sch : Scheme κ} {now : Time} {control : κ} {producer : Producer} {bytes : Bytes}
  {store : List Data} {data : Data} {arrivals : List Arrival} {s : Adaptive κ}

/-- The pipeline counts packets of the store. -/
theorem reached_counted (hpop : Producer.Populates producer bytes store) (hdata : data ∈ store)
    (h : (adaptive sch now control).Reached store data arrivals s) :
    Tallied data.segmentNo (store.length - 1) s := by
  have hfinal : ∀ d ∈ store, FinalIs (store.length - 1) d := fun d hd l hl =>
    (Option.some.inj ((hpop.final d hd).symm.trans hl)).symm
  have hof : ∀ a ∈ arrivals, OfContent (store.length - 1) a := by
    intro a ha
    cases a with
    | data now d =>
      have hd := h.fromStore _ ha d rfl
      exact ⟨Nat.le_pred_of_lt (segmentNo_lt hpop hd), hfinal d hd⟩
    | _ => trivial
  have hall : (Adaptive.arrivals sch).Always (Tallied data.segmentNo (store.length - 1)) (run sch now control data)
      arrivals :=
    Machine.always_of_inv (fun _ _ hs he hc => tallied_arrival hs he hc.2) (tallied_run sch now control (hfinal data hdata))
      h.runs ((Machine.each_of_runs h.runs).and_of_mem hof)
  rw [← h.exec]
  exact Machine.always_last _ _ hall

/-- A pipeline that has completed, with no segment handed on twice, has handed on the rest of the store. -/
theorem handedOn_all (hpop : Producer.Populates producer bytes store) (hdata : data ∈ store)
    (h : (adaptive sch now control).Reached store data arrivals s) (hc : s.completed = true)
    (hnodup : s.delivered.Nodup) :
    (data :: (Adaptive.arrivals sch).log (adaptive sch now control).handed (run sch now control data) arrivals).Perm
      store := by
  have hcounted := reached_counted hpop hdata h
  have hlt := segmentNo_lt hpop hdata
  have hall := hcounted.all (Nat.le_pred_of_lt hlt) hc hnodup
  have hdelivered : s.delivered = ((Adaptive.arrivals sch).log (adaptive sch now control).handed
      (run sch now control data) arrivals).map Data.segmentNo := h.delivered
  refine perm_of_segmentNos hpop (fun d hd => ?_) ?_ fun n hn => ?_
  · rcases List.mem_cons.1 hd with rfl | hd
    · exact hdata
    · exact h.mem_store hd
  · rw [List.map_cons, List.nodup_cons, ← hdelivered]
    refine ⟨fun hmem => ?_, hnodup⟩
    exact (hcounted.keyed.delivered _ hmem).2 hcounted.excluded.symm
  · rw [List.map_cons, ← hdelivered]
    by_cases hne : n = data.segmentNo
    · rw [hne]
      exact List.mem_cons_self
    · exact List.mem_cons_of_mem _ (hall n (by omega) hne)

end Adaptive

namespace Transfer

variable [SegmentNames] {δ α κ : Type}

/-- In every run with an adaptive pipeline: when the pipeline has completed and handed on no segment twice, and the
validator has answered, all that putchunks was given has been written, and nothing is left in the buffer. -/
theorem complete_of_completed (x : Parties δ α (Adaptive κ) Adaptive.Arrival) (sch : Scheme κ) (now : Time)
    (control : κ) (hx : x.pipeline = adaptive sch now control) (es : List (Event α Adaptive.Arrival))
    (hr : (machine x).Runs (start x) es) :
    (machine x).Always (fun s => s.thrown = none → s.validating = [] →
      (∃ p, s.pipeline = some p ∧ p.completed = true ∧ p.delivered.Nodup) →
      s.consumer.outputStream = x.input ∧ s.consumer.bufferedData.entries = []) (start x) es := by
  refine (inv_runs hr).imp ?_
  rintro s hs hnone hvalidating ⟨p, hp, hc, hnodup⟩
  obtain ⟨seen, arrived, h⟩ := hs.2 hnone
  refine h.written hvalidating hp fun data arrivals hdata reached => ?_
  unfold handedOn
  rw [hx] at reached ⊢
  exact Adaptive.handedOn_all (store_populates x) hdata reached hc hnodup

end Transfer

/-! ## Two octets -/

namespace Transfer

local instance completedNames : SegmentNames := documentedNames

/-- Two octets, fetched by the AIMD pipeline. -/
def videoAimd : Parties DiscoverVersionFixed DiscoverVersionFixed.Event (Adaptive Adaptive.Aimd.Window)
    Adaptive.Arrival where
  producer := oneOctetSegments
  input := [65, 66]
  store := [firstSegment, secondSegment]
  stored := stored_two
  matchesData _ _ := true
  discovery := fixed ["video", [0xFD, 5]] discoveryOptions
  pipeline := adaptive (Adaptive.Aimd.pipeline 3) 0 (Adaptive.Aimd.initial (Adaptive.Aimd.withCwnd 3) .default)

/-- The second segment is retransmitted. -/
def videoAimdRun : List (Event DiscoverVersionFixed.Event Adaptive.Arrival) :=
  let first := DiscoverVersionFixed.firstInterest ["video", [0xFD, 5]] discoveryOptions
  [.interest first,
   .discovery (.data first (namedData firstSegment)),
   .pipeline (.checkRto 1010 [1]),
   .interest (segmentInterest ["video", [0xFD, 5]] 4000 false 1),
   .pipeline (.data 1100 secondSegment),
   .validated secondSegment,
   .validated firstSegment]

theorem complete_of_completed_videoAimd :
    (machine videoAimd).Always (fun s => s.thrown = none → s.validating = [] →
      (∃ p, s.pipeline = some p ∧ p.completed = true ∧ p.delivered.Nodup) →
      s.consumer.outputStream = [65, 66] ∧ s.consumer.bufferedData.entries = []) (start videoAimd) videoAimdRun ∧
    ((machine videoAimd).exec (start videoAimd) videoAimdRun).pipeline.any Adaptive.completed = true :=
  ⟨complete_of_completed videoAimd _ _ _ rfl videoAimdRun (by decide +kernel), by decide +kernel⟩

end Transfer

end NdnTools.Chunks
