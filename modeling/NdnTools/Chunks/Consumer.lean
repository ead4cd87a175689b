/-
The consumer of catchunks (`consumer.cpp`): validated segments are buffered by segment number and
written to the output stream in order, starting from segment 0.

The writing loop restarts from the first buffered key. As long as no segment arrives again after
it was printed, the buffer holds only segments still to be printed, and the output is what the
arrived segments make printable (`Caught`). A segment that arrives again after it was printed
stays first in the buffer and is never the next to print, so the output stops there (`Stuck`).
-/
import NdnTools.Packet
import NdnTools.Lib.SortedMap
import Mathlib.Order.Bounds.Basic
import Mathlib.Tactic

namespace NdnTools.Chunks

/-- `Consumer::ApplicationNackError`: the packet that carries an application-level Nack. -/
structure ApplicationNackError where
  data : Data
  deriving Repr, DecidableEq

structure Consumer where
  nextToPrint : ℕ
  bufferedData : SortedMap ℕ Data
  outputStream : Bytes

namespace Consumer

/-- The state `Consumer::run` starts from. -/
def start : Consumer := ⟨0, .empty, []⟩

/-- The loop of `writeInOrderData`: while the first buffered segment is the next to print, write
its content, erase it and go on to the following segment. -/
def writeLoop : ℕ → Consumer → Consumer
  | 0, c => c
  | n + 1, c =>
    match c.bufferedData.first? with
    | none => c
    | some (segNo, data) =>
      if segNo = c.nextToPrint then
        writeLoop n
          { nextToPrint := c.nextToPrint + 1
            bufferedData := c.bufferedData.eraseFirst
            outputStream := c.outputStream ++ data.content }
      else c

/-- `Consumer::writeInOrderData`; every round erases an entry, so the size of the buffer bounds
the number of rounds. -/
def writeInOrderData (c : Consumer) : Consumer := writeLoop c.bufferedData.entries.length c

/-- `Consumer::onDataValidated`: an application-level Nack is thrown (after the pipeline was
cancelled), any other segment is buffered and what can be written in order is written. -/
def onDataValidated (c : Consumer) (data : Data) : Except ApplicationNackError Consumer :=
  if data.contentType = .nack then .error ⟨data⟩
  else .ok (writeInOrderData { c with bufferedData := c.bufferedData.assign data.segmentNo data })

/-- A sequence of validated packets handed to the consumer one after the other. -/
def consume (c : Consumer) (ds : List Data) : Except ApplicationNackError Consumer :=
  ds.foldlM onDataValidated c

/-- A packet that is no application-level Nack and carries the content of its segment. -/
def Carries (content : ℕ → Bytes) (d : Data) : Prop :=
  d.contentType ≠ .nack ∧ d.content = content d.segmentNo

/-- The contents of the segments below `n`, in order. -/
def inOrder (content : ℕ → Bytes) (n : ℕ) : Bytes := (List.range n).flatMap content

theorem inOrder_succ (content : ℕ → Bytes) (n : ℕ) :
    inOrder content (n + 1) = inOrder content n ++ content n := by
  simp [inOrder, List.range_succ]

/-- Two initial parts are equal exactly when everything between them is empty. -/
theorem inOrder_eq_iff (content : ℕ → Bytes) {p k : ℕ} (h : p ≤ k) :
    inOrder content p = inOrder content k ↔ ∀ i, p ≤ i → i < k → content i = [] := by
  induction k, h using Nat.le_induction with
  | base => exact ⟨fun _ i hp hi => absurd hi (by omega), fun _ => rfl⟩
  | succ k hpk ih =>
    have hlen : (inOrder content p).length ≤ (inOrder content k).length := by
      obtain ⟨d, rfl⟩ := Nat.exists_eq_add_of_le hpk
      simp [inOrder, List.range_add]
    rw [inOrder_succ]
    constructor
    · intro heq
      have hl := congrArg List.length heq
      rw [List.length_append] at hl
      have hk : content k = [] := List.eq_nil_of_length_eq_zero (by omega)
      rw [hk, List.append_nil] at heq
      intro i hp hi
      rcases Nat.lt_succ_iff_lt_or_eq.1 hi with hi | rfl
      · exact ih.1 heq i hp hi
      · exact hk
    · intro hall
      rw [hall k hpk (Nat.lt_succ_self k), List.append_nil]
      exact ih.2 fun i hp hi => hall i hp (by omega)

/-! ## The writing loop -/

/-- The invariant of a consumer that has printed all it could: `arrived` holds exactly what is
printed and what is buffered, the buffer is ahead of the output, and the output is the printed
segments in order. -/
structure Caught (content : ℕ → Bytes) (arrived : List ℕ) (c : Consumer) : Prop where
  split : ∀ s, s ∈ arrived ↔ s < c.nextToPrint ∨ ∃ e ∈ c.bufferedData.entries, e.1 = s
  ahead : ∀ e ∈ c.bufferedData.entries, c.nextToPrint ≤ e.1
  carried : ∀ e ∈ c.bufferedData.entries, e.2.content = content e.1
  output : c.outputStream = inOrder content c.nextToPrint

/-- The next segment to print has not arrived. -/
def Waiting (c : Consumer) : Prop := ∀ e ∈ c.bufferedData.entries, e.1 ≠ c.nextToPrint

/-- A segment below the next to print is first in the buffer. -/
def Stuck (c : Consumer) : Prop := ∃ e ∈ c.bufferedData.entries, e.1 < c.nextToPrint

/-- One round: the first buffered segment is printed. -/
theorem caught_print {content : ℕ → Bytes} {arrived : List ℕ} {c : Consumer} {segNo : ℕ} {data : Data}
    (h : Caught content arrived c) (hf : c.bufferedData.first? = some (segNo, data)) (heq : segNo = c.nextToPrint) :
    Caught content arrived
      { nextToPrint := c.nextToPrint + 1
        bufferedData := c.bufferedData.eraseFirst
        outputStream := c.outputStream ++ data.content } := by
  have hmem := SortedMap.first?_mem hf
  refine ⟨fun s => ?_, fun e he => ?_, fun e he => ?_, ?_⟩
  · rw [h.split]
    constructor
    · rintro (hs | ⟨e, he, rfl⟩)
      · exact .inl (Nat.lt_succ_of_lt hs)
      · by_cases hse : e.1 = segNo
        · exact .inl (by simp only; omega)
        · exact .inr ⟨e, (SortedMap.mem_eraseFirst hf).2 ⟨he, hse⟩, rfl⟩
    · rintro (hs | ⟨e, he, rfl⟩)
      · rcases Nat.lt_succ_iff_lt_or_eq.1 hs with hs | rfl
        · exact .inl hs
        · exact .inr ⟨_, hmem, heq⟩
      · exact .inr ⟨e, ((SortedMap.mem_eraseFirst hf).1 he).1, rfl⟩
  · obtain ⟨he, hne⟩ := (SortedMap.mem_eraseFirst hf).1 he
    have hge := h.ahead e he
    simp only at hne ⊢
    omega
  · exact h.carried e ((SortedMap.mem_eraseFirst hf).1 he).1
  · rw [h.output, inOrder_succ, h.carried _ hmem, heq]

theorem writeLoop_caught {content : ℕ → Bytes} {arrived : List ℕ} :
    ∀ (n : ℕ) (c : Consumer), Caught content arrived c → c.bufferedData.entries.length ≤ n →
      Caught content arrived (writeLoop n c) ∧ Waiting (writeLoop n c)
  | 0, c, h, hn => by
    have hnil := List.eq_nil_of_length_eq_zero (Nat.le_zero.1 hn)
    refine ⟨h, fun e he => ?_⟩
    simp only [writeLoop, hnil] at he
    cases he
  | n + 1, c, h, hn => by
    simp only [writeLoop]
    cases hf : c.bufferedData.first? with
    | none =>
      refine ⟨h, fun e he => ?_⟩
      rw [SortedMap.first?_eq_none.1 hf] at he; cases he
    | some e =>
      obtain ⟨segNo, data⟩ := e
      dsimp only
      split
      · rename_i heq
        have hlen := SortedMap.length_eraseFirst hf
        exact writeLoop_caught n _ (caught_print h hf heq) (by simp only; omega)
      -- the least buffered segment is ahead, so all are
      · rename_i hne
        refine ⟨h, fun e he heq => hne ?_⟩
        have hle := SortedMap.first?_le hf he
        have hge := h.ahead _ (SortedMap.first?_mem hf)
        simp only at hle hge
        omega

/-- The loop writes nothing while a printed segment is first in the buffer. -/
theorem writeLoop_stuck {c : Consumer} (h : Stuck c) : ∀ n, writeLoop n c = c
  | 0 => rfl
  | n + 1 => by
    obtain ⟨e, he, hlt⟩ := h
    simp only [writeLoop]
    cases hf : c.bufferedData.first? with
    | none => rfl
    | some f =>
      obtain ⟨segNo, data⟩ := f
      have hle := SortedMap.first?_le hf he
      dsimp only at hle ⊢
      rw [if_neg (by omega)]

/-! ## One packet -/

theorem onDataValidated_ok {c : Consumer} {d : Data} (h : d.contentType ≠ .nack) :
    onDataValidated c d =
      .ok (writeInOrderData { c with bufferedData := c.bufferedData.assign d.segmentNo d }) := by
  unfold onDataValidated; rw [if_neg h]

/-- A packet of a segment that is not printed yet is buffered, and all that has become printable
is printed. -/
theorem caught_step {content : ℕ → Bytes} {arrived : List ℕ} {c : Consumer} {d : Data}
    (h : Caught content arrived c) (hd : Carries content d) (hnew : c.nextToPrint ≤ d.segmentNo) :
    ∃ c', onDataValidated c d = .ok c' ∧ Caught content (arrived ++ [d.segmentNo]) c' ∧ Waiting c' := by
  refine ⟨_, onDataValidated_ok hd.1, ?_⟩
  refine writeLoop_caught _ _ ⟨fun s => ?_, fun e he => ?_, fun e he => ?_, h.output⟩ le_rfl
  · simp only [List.mem_append, List.mem_singleton, h.split]
    constructor
    · rintro ((hs | ⟨e, he, rfl⟩) | rfl)
      · exact .inl hs
      · by_cases hse : e.1 = d.segmentNo
        · exact .inr ⟨_, SortedMap.mem_assign.2 (.inl rfl), hse.symm⟩
        · exact .inr ⟨e, SortedMap.mem_assign.2 (.inr ⟨he, hse⟩), rfl⟩
      · exact .inr ⟨_, SortedMap.mem_assign.2 (.inl rfl), rfl⟩
    · rintro (hs | ⟨e, he, rfl⟩)
      · exact .inl (.inl hs)
      · rcases SortedMap.mem_assign.1 he with rfl | ⟨he, -⟩
        · exact .inr rfl
        · exact .inl (.inr ⟨e, he, rfl⟩)
  · rcases SortedMap.mem_assign.1 he with rfl | ⟨he, -⟩
    · exact hnew
    · exact h.ahead e he
  · rcases SortedMap.mem_assign.1 he with rfl | ⟨he, -⟩
    · exact hd.2
    · exact h.carried e he

/-- A packet of a printed segment leaves the consumer stuck, with the same output. -/
theorem stuck_of_printed {c : Consumer} {d : Data} (hd : d.contentType ≠ .nack)
    (hold : d.segmentNo < c.nextToPrint) :
    ∃ c', onDataValidated c d = .ok c' ∧ Stuck c' ∧ c'.outputStream = c.outputStream := by
  have hs : Stuck { c with bufferedData := c.bufferedData.assign d.segmentNo d } :=
    ⟨_, SortedMap.mem_assign.2 (.inl rfl), hold⟩
  refine ⟨_, onDataValidated_ok hd, ?_⟩
  unfold writeInOrderData
  rw [writeLoop_stuck hs]
  exact ⟨hs, rfl⟩

/-- A stuck consumer stays stuck and writes nothing. -/
theorem stuck_step {c : Consumer} {d : Data} (h : Stuck c) (hd : d.contentType ≠ .nack) :
    ∃ c', onDataValidated c d = .ok c' ∧ Stuck c' ∧ c'.outputStream = c.outputStream := by
  obtain ⟨e, he, hlt⟩ := h
  have hs : Stuck { c with bufferedData := c.bufferedData.assign d.segmentNo d } := by
    by_cases hk : e.1 = d.segmentNo
    · exact ⟨_, SortedMap.mem_assign.2 (.inl rfl), by rw [hk] at hlt; exact hlt⟩
    · exact ⟨e, SortedMap.mem_assign.2 (.inr ⟨he, hk⟩), hlt⟩
  refine ⟨_, onDataValidated_ok hd, ?_⟩
  unfold writeInOrderData
  rw [writeLoop_stuck hs]
  exact ⟨hs, rfl⟩

/-! ## Sequences of packets -/

/-- Segment `s` can be printed from the arrived segments: all of `0, …, s` have arrived. -/
def Printable (arrived : List ℕ) (s : ℕ) : Prop := ∀ i ≤ s, i ∈ arrived

/-- No segment arrives again after it was printed. -/
def NoLateRepeat (arrived : List ℕ) : Prop :=
  ∀ pre s post, arrived = pre ++ s :: post → ¬ Printable pre s

/-- Where an element of a list with one more element at the end is: last, or in the list. -/
theorem snoc_eq_append_cons {α : Type} {l pre post : List α} {x s : α} (h : l ++ [x] = pre ++ s :: post) :
    (pre = l ∧ s = x) ∨ ∃ post', l = pre ++ s :: post' := by
  rcases List.eq_nil_or_concat post with rfl | ⟨post', y, rfl⟩
  · obtain ⟨rfl, hs⟩ := List.append_inj' h rfl
    exact .inl ⟨rfl, (List.singleton_inj.1 hs).symm⟩
  · rw [List.concat_eq_append, ← List.cons_append, ← List.append_assoc] at h
    exact .inr ⟨post', (List.append_inj' h rfl).1⟩

theorem caught_start (content : ℕ → Bytes) : Caught content [] start := by
  refine ⟨fun s => ?_, fun e he => ?_, fun e he => ?_, rfl⟩
  · simp [start, SortedMap.empty]
  · cases he
  · cases he

/-- What is printed is exactly what is printable. -/
theorem lt_nextToPrint_iff {content : ℕ → Bytes} {arrived : List ℕ} {c : Consumer}
    (h : Caught content arrived c) (hw : Waiting c) (s : ℕ) :
    s < c.nextToPrint ↔ Printable arrived s := by
  constructor
  · intro hs i hi
    exact (h.split i).2 (.inl (by omega))
  · intro hp
    by_contra hge
    rcases (h.split c.nextToPrint).1 (hp _ (by omega)) with hlt | ⟨e, he, heq⟩
    · omega
    · exact hw e he heq

/-- The next segment to print is the least one that has not arrived. -/
theorem isLeast_nextToPrint {content : ℕ → Bytes} {arrived : List ℕ} {c : Consumer}
    (h : Caught content arrived c) (hw : Waiting c) : IsLeast {n | n ∉ arrived} c.nextToPrint := by
  constructor
  · intro hm
    rcases (h.split _).1 hm with hlt | ⟨e, he, heq⟩
    · omega
    · exact hw e he heq
  · intro n hn
    by_contra hlt
    exact hn ((h.split n).2 (.inl (by omega)))

/-- Where a sequence of packets leaves the consumer: caught up when no segment repeats after it
was printed, and otherwise stuck with the output of the packets before the first such repeat. -/
theorem consume_cases (content : ℕ → Bytes) (ds : List Data) (hd : ∀ d ∈ ds, Carries content d) :
    ∃ c, consume start ds = .ok c ∧
      ((NoLateRepeat (ds.map Data.segmentNo) ∧ Caught content (ds.map Data.segmentNo) c ∧ Waiting c) ∨
       (Stuck c ∧ ∃ pre s post p, ds.map Data.segmentNo = pre ++ s :: post ∧ NoLateRepeat pre ∧
          (∀ i, i < p ↔ Printable pre i) ∧ s < p ∧ c.outputStream = inOrder content p)) := by
  -- on the sequence, by its last packet
  induction ds using List.reverseRecOn with
  | nil =>
    refine ⟨start, rfl, .inl ⟨fun pre s post h => ?_, caught_start content, fun e he => by cases he⟩⟩
    simp at h
  | append_singleton ds d ih =>
    obtain ⟨c, hc, hcase⟩ := ih fun x hx => hd x (List.mem_append_left _ hx)
    have hcd := hd d (List.mem_append_right _ (List.mem_singleton_self d))
    have hrun : ∀ c', onDataValidated c d = .ok c' → consume start (ds ++ [d]) = .ok c' := by
      intro c' h'
      unfold consume at hc ⊢
      rw [List.foldlM_append, hc]
      simp only [List.foldlM_cons, List.foldlM_nil, bind, Except.bind, h']
      rfl
    rw [List.map_append, List.map_cons, List.map_nil]
    rcases hcase with ⟨hno, hca, hw⟩ | ⟨hst, pre, s, post, p, heq, hno, hp, hs, hout⟩
    · by_cases hlt : d.segmentNo < c.nextToPrint
      · -- the first late repeat: everything before it was printed in order
        obtain ⟨c', h', hst, hout⟩ := stuck_of_printed hcd.1 hlt
        exact ⟨c', hrun c' h', .inr ⟨hst, _, d.segmentNo, [], c.nextToPrint, rfl, hno,
          lt_nextToPrint_iff hca hw, hlt, hout.trans hca.output⟩⟩
      · obtain ⟨c', h', hca', hw'⟩ := caught_step hca hcd (by omega)
        refine ⟨c', hrun c' h', .inl ⟨fun pre s post h => ?_, hca', hw'⟩⟩
        rcases snoc_eq_append_cons h with ⟨rfl, rfl⟩ | ⟨post', h⟩
        · rw [← lt_nextToPrint_iff hca hw]
          exact hlt
        · exact hno pre s post' h
    · obtain ⟨c', h', hst', hout'⟩ := stuck_step hst hcd.1
      refine ⟨c', hrun c' h', .inr ⟨hst', pre, s, post ++ [d.segmentNo], p, ?_, hno, hp, hs, hout'.trans hout⟩⟩
      rw [heq, List.append_assoc, List.cons_append]

/-! ## The output -/

/-- What the consumer is for: after the whole sequence the output is the contents of the segments
below the least one that did not arrive, in order, each once. -/
def WritesInOrder (content : ℕ → Bytes) (ds : List Data) : Prop :=
  ∀ k, IsLeast {n | n ∉ ds.map Data.segmentNo} k →
    ∃ c, consume start ds = .ok c ∧ c.outputStream = inOrder content k

theorem printable_iff_lt {arrived : List ℕ} {k : ℕ} (hk : IsLeast {n | n ∉ arrived} k) (i : ℕ) :
    Printable arrived i ↔ i < k := by
  constructor
  · intro hp
    by_contra hge
    exact hk.1 (hp k (by omega))
  · intro hi j hj
    by_contra hm
    have := hk.2 hm; omega

theorem exists_isLeast_missing (arrived : List ℕ) : ∃ k, IsLeast {n | n ∉ arrived} k := by
  have hex : ∃ n, n ∉ arrived := by
    obtain ⟨n, hn⟩ := Infinite.exists_notMem_finset arrived.toFinset
    exact ⟨n, by simpa using hn⟩
  classical
  exact ⟨Nat.find hex, Nat.find_spec hex, fun n hn => Nat.find_min' hex hn⟩

/-- The output is complete and in order exactly when no segment arrives again after it was printed,
or nothing but empty segments became printable after such a repeat. -/
theorem writesInOrder_iff (content : ℕ → Bytes) (ds : List Data) (hd : ∀ d ∈ ds, Carries content d) :
    WritesInOrder content ds ↔
      ∀ pre s post, ds.map Data.segmentNo = pre ++ s :: post → Printable pre s →
        ∀ i, Printable (ds.map Data.segmentNo) i → ¬ Printable pre i → content i = [] := by
  obtain ⟨k, hk⟩ := exists_isLeast_missing (ds.map Data.segmentNo)
  obtain ⟨c, hc, hcase⟩ := consume_cases content ds hd
  have hiff : WritesInOrder content ds ↔ c.outputStream = inOrder content k := by
    constructor
    · intro h
      obtain ⟨c', hc', hout⟩ := h k hk
      rw [hc] at hc'; cases hc'; exact hout
    · intro hout k' hk'
      exact ⟨c, hc, by rw [hk'.unique hk]; exact hout⟩
  rw [hiff]
  rcases hcase with ⟨hno, hca, hw⟩ | ⟨-, pre, s, post, p, heq, hno, hp, hs, hout⟩
  · have hnext : c.nextToPrint = k := (isLeast_nextToPrint hca hw).unique hk
    rw [hca.output, hnext]
    exact ⟨fun _ pre s post h hpr => absurd hpr (hno pre s post h), fun _ => rfl⟩
  · have hsub : ∀ i, Printable pre i → Printable (ds.map Data.segmentNo) i := fun i hi j hj => by
      rw [heq]; exact List.mem_append_left _ (hi j hj)
    have hpk : p ≤ k := by
      by_contra hlt
      have hpr := hsub k ((hp k).1 (by omega))
      rw [printable_iff_lt hk] at hpr; omega
    rw [hout, inOrder_eq_iff content hpk]
    constructor
    · intro hall pre' s' post' heq' hpr' i hi hni
      refine hall i ?_ ((printable_iff_lt hk i).1 hi)
      by_contra hip
      -- a repeat before the first one is impossible, so `pre` is part of `pre'`
      rw [heq] at heq'
      rcases List.append_eq_append_iff.1 heq' with ⟨t, rfl, -⟩ | ⟨t, rfl, ht⟩
      · exact hni fun j hj => List.mem_append_left _ ((hp i).1 (by omega) j hj)
      · rcases t with _ | ⟨x, t⟩
        · rw [List.append_nil] at hp
          exact hni ((hp i).1 (by omega))
        · obtain ⟨rfl, -⟩ := List.cons.inj ht
          exact hno pre' s' t rfl hpr'
    · intro hall i hpi hik
      refine hall pre s post heq ((hp s).1 hs) i ((printable_iff_lt hk i).2 hik) fun hpr => ?_
      have := (hp i).2 hpr; omega

/-- A one-octet segment. -/
def oneOctet (segmentNo : ℕ) : Data := ⟨[], segmentNo, .blob, 0, [UInt8.ofNat (65 + segmentNo)], none⟩

theorem writesInOrder_iff_unordered :
    (∀ d ∈ [oneOctet 1, oneOctet 0], Carries (fun n => [UInt8.ofNat (65 + n)]) d) ∧
    (WritesInOrder (fun n => [UInt8.ofNat (65 + n)]) [oneOctet 1, oneOctet 0] ↔
      ∀ pre s post, [oneOctet 1, oneOctet 0].map Data.segmentNo = pre ++ s :: post → Printable pre s →
        ∀ i, Printable ([oneOctet 1, oneOctet 0].map Data.segmentNo) i → ¬ Printable pre i →
          (fun n => [UInt8.ofNat (65 + n)]) i = []) := by
  have hd : ∀ d ∈ [oneOctet 1, oneOctet 0], Carries (fun n => [UInt8.ofNat (65 + n)]) d := by
    simp [oneOctet, Carries]
  exact ⟨hd, writesInOrder_iff _ _ hd⟩

/-- Segment 0 repeated after it was printed blocks segment 1: of the arrivals 0, 0, 1 only segment
0 is written. -/
theorem repeated_segment_blocks_output :
    (∀ d ∈ [oneOctet 0, oneOctet 0, oneOctet 1], Carries (fun n => [UInt8.ofNat (65 + n)]) d) ∧
    ¬ WritesInOrder (fun n => [UInt8.ofNat (65 + n)]) [oneOctet 0, oneOctet 0, oneOctet 1] := by
  refine ⟨by simp [oneOctet, Carries], fun h => ?_⟩
  obtain ⟨c, hc, hout⟩ := h 2 ⟨by simp [oneOctet], fun n hn => by
    simp only [oneOctet, List.map_cons, List.map_nil, List.mem_cons, List.not_mem_nil, or_false,
      Set.mem_ofPred_eq] at hn
    omega⟩
  have hrun : ∃ c', consume start [oneOctet 0, oneOctet 0, oneOctet 1] = .ok c' ∧
      c'.outputStream = [65] := ⟨_, rfl, rfl⟩
  obtain ⟨c', hc', hout'⟩ := hrun
  rw [hc] at hc'; cases hc'
  rw [hout] at hout'
  revert hout'
  decide

end Consumer

end NdnTools.Chunks
