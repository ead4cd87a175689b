/-
putchunks and catchunks together: whatever the input and the segment size, the packets the producer
makes, handed to the consumer each once in any order, give the input back.
-/
import NdnTools.Chunks.Producer

namespace NdnTools.Chunks

open Consumer Producer

/-- Packets that arrive once each are never repeated after they were printed. -/
theorem noLateRepeat_of_nodup {arrived : List ℕ} (h : arrived.Nodup) : NoLateRepeat arrived := by
  rintro pre s post rfl hp
  exact (List.nodup_append.1 h).2.2 s (hp s le_rfl) s (List.mem_cons_self ..) rfl

/-- The consumer of packets numbered without repetition prints everything printable. -/
theorem consume_nodup (content : ℕ → Bytes) (ds : List Data) (hd : ∀ d ∈ ds, Carries content d)
    (hnd : (ds.map Data.segmentNo).Nodup) :
    ∃ c, consume start ds = .ok c ∧ Caught content (ds.map Data.segmentNo) c ∧ Waiting c := by
  obtain ⟨c, hc, hcase⟩ := consume_cases content ds hd
  rcases hcase with ⟨-, hca, hw⟩ | ⟨-, pre, s, post, p, heq, -, hp, hs, -⟩
  · exact ⟨c, hc, hca, hw⟩
  · exact absurd ((hp s).1 hs) (noLateRepeat_of_nodup hnd pre s post heq)

/-- The content of each segment of a store. -/
def contentOf (store : List Data) (i : ℕ) : Bytes := ((store[i]?).map Data.content).getD []

theorem segmentNo_getElem {store : List Data} (h : store.map Data.segmentNo = List.range store.length)
    {i : ℕ} (hi : i < store.length) : store[i].segmentNo = i := by
  have := congrArg (·[i]?) h
  simpa [hi] using this

theorem carries_store {p : Producer} {bytes : Bytes} {store : List Data} (h : Populates p bytes store) :
    ∀ d ∈ store, Carries (contentOf store) d := by
  intro d hd
  obtain ⟨i, hi, rfl⟩ := List.getElem_of_mem hd
  refine ⟨by rw [(h.plain _ hd).2]; decide, ?_⟩
  rw [segmentNo_getElem h.numbered hi]
  simp [contentOf, hi]

/-- The contents of a whole store in order are the octets it was made of. -/
theorem inOrder_store {p : Producer} {bytes : Bytes} {store : List Data} (h : Populates p bytes store) :
    inOrder (contentOf store) store.length = bytes := by
  have hmap : store = (List.range store.length).map fun i => store[i]?.getD (p.segment 0 []) := by
    refine List.ext_getElem (by simp) fun i hi hi' => ?_
    simp [hi]
  rw [← h.joined]
  conv_rhs => rw [hmap]
  rw [List.flatMap_map, inOrder]
  refine List.flatMap_congr fun i hi => ?_
  rw [List.mem_range] at hi
  simp [contentOf, hi]

/-- The packets of a store, each once in any order, give the octets back and leave nothing
buffered. -/
theorem consume_store {p : Producer} {bytes : Bytes} {store : List Data} (h : Populates p bytes store)
    {ds : List Data} (hperm : ds.Perm store) :
    ∃ c, consume start ds = .ok c ∧ c.outputStream = bytes ∧ c.bufferedData.entries = [] := by
  have hsegs : (ds.map Data.segmentNo).Perm (List.range store.length) := by
    rw [← h.numbered]; exact hperm.map _
  obtain ⟨c, hc, hca, hw⟩ := consume_nodup (contentOf store) ds
    (fun d hd => carries_store h d (hperm.mem_iff.1 hd)) (hsegs.nodup_iff.2 List.nodup_range)
  have hmem : ∀ s, s ∈ ds.map Data.segmentNo ↔ s < store.length := fun s => by
    rw [hsegs.mem_iff, List.mem_range]
  -- the least segment that did not arrive is the first after the store
  have hnext : c.nextToPrint = store.length := by
    refine (isLeast_nextToPrint hca hw).unique ⟨?_, fun n hn => ?_⟩
    · simp only [Set.mem_ofPred_eq, hmem]; omega
    · simp only [Set.mem_ofPred_eq, hmem] at hn; omega
  refine ⟨c, hc, ?_, ?_⟩
  · rw [hca.output, hnext, inOrder_store h]
  · refine List.eq_nil_iff_forall_not_mem.2 fun e he => ?_
    have hge := hca.ahead e he
    have hlt := (hmem e.1).1 ((hca.split e.1).2 (.inr ⟨e, he, rfl⟩))
    omega

/-- putchunks then catchunks is the identity: the producer makes the promised packets of any input,
and the consumer that gets each of them once, in any order, outputs that input. -/
theorem putchunks_catchunks (p : Producer) (bytes : Bytes) :
    Populates p bytes (p.populateStore ⟨bytes, true⟩) ∧
    ∀ ds : List Data, ds.Perm (p.populateStore ⟨bytes, true⟩) →
      ∃ c, consume start ds = .ok c ∧ c.outputStream = bytes ∧ c.bufferedData.entries = [] :=
  ⟨populateStore_populates p bytes, fun _ h => consume_store (populateStore_populates p bytes) h⟩

end NdnTools.Chunks
