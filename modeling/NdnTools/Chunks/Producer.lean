/-
The producer of putchunks (`producer.cpp`): the input stream is split into Data packets of at most
`maxSegmentSize` octets, and every packet carries the number of the last one as its FinalBlockId.

An input stream is what remains to be read and the `good` state. A read delivers the next octets
and clears `good` when fewer remained than asked for, so an input that is a multiple of the
segment size ends with a read of no octets.
-/
import NdnTools.Chunks.Consumer
import Mathlib.Algebra.Order.Floor.Div
import Mathlib.Data.PNat.Basic

namespace NdnTools.Chunks

/-- `std::istream`. -/
structure IStream where
  remaining : Bytes
  good : Bool
  deriving Repr, DecidableEq

/-- `istream::read` of `n` octets, with the octets `gcount` counts. -/
def IStream.read (n : ℕ) (is : IStream) : Bytes × IStream :=
  (is.remaining.take n, ⟨is.remaining.drop n, is.good && decide (n ≤ is.remaining.length)⟩)

structure Producer where
  versionedPrefix : Name
  freshnessPeriod : ℕ
  maxSegmentSize : ℕ+

namespace Producer

/-- The packet of one segment, before its FinalBlockId is known. -/
def segment (p : Producer) (segmentNo : ℕ) (content : Bytes) : Data :=
  { versionedPrefix := p.versionedPrefix
    segmentNo
    contentType := .blob
    freshnessPeriod := p.freshnessPeriod
    content
    finalBlockId := none }

/-- The reading loop of `populateStore`. -/
def readLoop (p : Producer) (is : IStream) (store : List Data) : List Data :=
  if is.good = true then
    let r := is.read p.maxSegmentSize
    readLoop p r.2 (if 0 < r.1.length then store ++ [p.segment store.length r.1] else store)
  else store
termination_by is.remaining.length + is.good.toNat
decreasing_by
  have hm := p.maxSegmentSize.pos
  simp only [IStream.read, List.length_drop]
  by_cases hle : (p.maxSegmentSize : ℕ) ≤ is.remaining.length
  · simp [*]; omega
  · simp [*]

/-- `Producer::populateStore`: an empty input still gives one (empty) packet. -/
def populateStore (p : Producer) (is : IStream) : List Data :=
  let store := p.readLoop is []
  let store := if store.isEmpty then [p.segment 0 []] else store
  store.map fun data => { data with finalBlockId := some (store.length - 1) }

/-! ## The reading loop -/

/-- The packets the loop makes of `bytes`, numbered from `first`. -/
structure Splits (p : Producer) (first : ℕ) (bytes : Bytes) (ds : List Data) : Prop where
  count : ds.length = bytes.length ⌈/⌉ (p.maxSegmentSize : ℕ)
  numbered : ds.map Data.segmentNo = List.range' first ds.length
  nonempty : ∀ d ∈ ds, d.content ≠ []
  full : ∀ d ∈ ds.dropLast, d.content.length = p.maxSegmentSize
  joined : ds.flatMap Data.content = bytes
  plain : ∀ d ∈ ds, d.versionedPrefix = p.versionedPrefix ∧ d.contentType = .blob

theorem readLoop_done (p : Producer) (bytes : Bytes) (store : List Data) :
    p.readLoop ⟨bytes, false⟩ store = store := by
  rw [readLoop]; simp

theorem splits_nil (p : Producer) (first : ℕ) : Splits p first [] [] := by
  refine ⟨?_, rfl, ?_, ?_, rfl, ?_⟩ <;> simp

/-- A last segment shorter than the segment size. -/
theorem splits_short (p : Producer) (first : ℕ) {bytes : Bytes} (hne : bytes ≠ [])
    (hlt : bytes.length < p.maxSegmentSize) : Splits p first bytes [p.segment first bytes] := by
  have hpos := List.length_pos_of_ne_nil hne
  refine ⟨?_, rfl, ?_, by simp, by simp [segment], by simp [segment]⟩
  · rw [Nat.ceilDiv_eq_add_pred_div, List.length_singleton, Eq.comm, Nat.div_eq_iff p.maxSegmentSize.pos]
    omega
  · simpa [segment] using hne

/-- A full segment in front of the packets of the rest. -/
theorem splits_cons (p : Producer) {first : ℕ} {bytes : Bytes} {ds : List Data}
    (hle : (p.maxSegmentSize : ℕ) ≤ bytes.length)
    (h : Splits p (first + 1) (bytes.drop p.maxSegmentSize) ds) :
    Splits p first bytes (p.segment first (bytes.take p.maxSegmentSize) :: ds) := by
  have hm := p.maxSegmentSize.pos
  have hlen : (bytes.take p.maxSegmentSize).length = p.maxSegmentSize := by simp [hle]
  refine ⟨?_, ?_, fun d hd => ?_, fun d hd => ?_, ?_, fun d hd => ?_⟩
  · rw [List.length_cons, h.count, List.length_drop, Nat.ceilDiv_eq_add_pred_div,
      Nat.ceilDiv_eq_add_pred_div, ← Nat.add_div_right _ hm]
    congr 1; omega
  · rw [List.map_cons, h.numbered, List.length_cons, List.range'_succ]; rfl
  · rcases List.mem_cons.1 hd with rfl | hd
    · intro hnil
      rw [show (p.segment first (bytes.take p.maxSegmentSize)).content = bytes.take p.maxSegmentSize from rfl] at hnil
      rw [hnil, List.length_nil] at hlen; omega
    · exact h.nonempty d hd
  · cases hds : ds with
    | nil => rw [hds] at hd; simp at hd
    | cons d' ds' =>
      rw [hds, List.dropLast_cons_cons, List.mem_cons] at hd
      rcases hd with rfl | hd
      · exact hlen
      · exact h.full d (by rw [hds]; exact hd)
  · rw [List.flatMap_cons, h.joined]
    exact List.take_append_drop _ _
  · rcases List.mem_cons.1 hd with rfl | hd
    · exact ⟨rfl, rfl⟩
    · exact h.plain d hd

/-- The loop appends to the store the packets of what remains to be read. -/
theorem readLoop_splits (p : Producer) : ∀ (n : ℕ) (bytes : Bytes) (store : List Data), bytes.length = n →
    ∃ ds, p.readLoop ⟨bytes, true⟩ store = store ++ ds ∧ Splits p store.length bytes ds := by
  have hm := p.maxSegmentSize.pos
  intro n
  induction n using Nat.strong_induction_on with
  | _ n ih =>
    intro bytes store hn
    rw [readLoop]
    simp only [if_true, IStream.read, Bool.true_and]
    by_cases hle : (p.maxSegmentSize : ℕ) ≤ bytes.length
    -- a full segment was read, and the stream is still good
    · obtain ⟨ds, hds, hs⟩ := ih (bytes.drop p.maxSegmentSize).length (by rw [List.length_drop]; omega)
        (bytes.drop p.maxSegmentSize) (store ++ [p.segment store.length (bytes.take p.maxSegmentSize)]) rfl
      have hlen : (bytes.take p.maxSegmentSize).length = p.maxSegmentSize := by simp [hle]
      rw [if_pos (by omega), decide_eq_true hle, hds, List.append_assoc, List.singleton_append]
      rw [List.length_append, List.length_singleton] at hs
      exact ⟨_, rfl, splits_cons p hle hs⟩
    -- the last read: fewer octets than asked for, perhaps none
    · have htake : bytes.take p.maxSegmentSize = bytes := List.take_of_length_le (by omega)
      rw [decide_eq_false hle, readLoop_done, htake]
      by_cases hne : bytes = []
      · subst hne
        exact ⟨[], by simp, splits_nil p _⟩
      · rw [if_pos (List.length_pos_of_ne_nil hne)]
        exact ⟨_, rfl, splits_short p _ hne (by omega)⟩

/-! ## The store -/

/-- What `populateStore` promises of the packets it makes of `bytes`. -/
structure Populates (p : Producer) (bytes : Bytes) (store : List Data) : Prop where
  count : store.length = max 1 (bytes.length ⌈/⌉ (p.maxSegmentSize : ℕ))
  numbered : store.map Data.segmentNo = List.range store.length
  nonempty : bytes ≠ [] → ∀ d ∈ store, d.content ≠ []
  full : ∀ d ∈ store.dropLast, d.content.length = p.maxSegmentSize
  final : ∀ d ∈ store, d.finalBlockId = some (store.length - 1)
  joined : store.flatMap Data.content = bytes
  plain : ∀ d ∈ store, d.versionedPrefix = p.versionedPrefix ∧ d.contentType = .blob

theorem populateStore_populates (p : Producer) (bytes : Bytes) :
    Populates p bytes (p.populateStore ⟨bytes, true⟩) := by
  obtain ⟨ds, hds, hs⟩ := readLoop_splits p bytes.length bytes [] rfl
  rw [List.nil_append] at hds
  have hm := p.maxSegmentSize.pos
  unfold populateStore
  rw [hds]
  cases hc : ds with
  | nil =>
    -- nothing was read, and the store is one empty packet
    have hnil : bytes = [] := by rw [← hs.joined, hc]; rfl
    subst hnil
    refine ⟨?_, rfl, fun h => absurd rfl h, ?_, ?_, ?_, ?_⟩ <;> simp [segment]
  | cons d ds' =>
    rw [← hc]
    have hne : ds.isEmpty = false := by rw [hc]; rfl
    have hpos : 1 ≤ ds.length := by rw [hc, List.length_cons]; omega
    simp only [hne, Bool.false_eq_true, if_false]
    refine ⟨?_, ?_, fun _ d hd => ?_, fun d hd => ?_, fun d hd => ?_, ?_, fun d hd => ?_⟩
    · rw [List.length_map, ← hs.count, max_eq_right hpos]
    · rw [List.map_map, List.length_map, List.range_eq_range']
      exact hs.numbered
    · obtain ⟨d', hd', rfl⟩ := List.mem_map.1 hd
      exact hs.nonempty d' hd'
    · rw [← List.map_dropLast] at hd
      obtain ⟨d', hd', rfl⟩ := List.mem_map.1 hd
      exact hs.full d' hd'
    · obtain ⟨d', -, rfl⟩ := List.mem_map.1 hd
      simp
    · rw [List.flatMap_map]
      exact hs.joined
    · obtain ⟨d', hd', rfl⟩ := List.mem_map.1 hd
      exact hs.plain d' hd'

end Producer

end NdnTools.Chunks
