/-
Which round-trip times an adaptive pipeline measures. By Karn's rule a sample is taken only of a segment
whose Interest was expressed once. `handleData` decides by the state of the segment's entry, which does
not tell enough: a segment that was retransmitted may be back on the retransmission queue, or have an
entry that `operator[]` has just made, and a FinalBlockId erases entries while one is looked at.

`recording` notes the calls of `addMeasurement` beside the congestion control. `Karn` says what an entry,
a pending Interest and `m_retxCount` tell about the history; it holds in every run.
-/
import NdnTools.Chunks.Adaptive.History
import NdnTools.Chunks.Adaptive.Projection
import NdnTools.Chunks.Adaptive.Aimd

namespace NdnTools.Chunks.Adaptive

variable {κ : Type}

/-- A call of `addMeasurement`. -/
structure Measurement where
  segNo : ℕ
  now : Time
  rtt : Time
  deriving Repr, DecidableEq

/-- The pipeline, with the calls of `addMeasurement` noted. -/
def recording (sch : Scheme κ) : Scheme (κ × List Measurement) where
  cwnd c := sch.cwnd c.1
  increaseWindow now c := (sch.increaseWindow now c.1, c.2)
  decreaseWindow now c := (sch.decreaseWindow now c.1, c.2)
  backoffRto c := (sch.backoffRto c.1, c.2)
  getEstimatedRto c := sch.getEstimatedRto c.1
  addMeasurement segNo now rtt nExpectedSamples c :=
    (sch.addMeasurement segNo now rtt nExpectedSamples c.1, c.2 ++ [⟨segNo, now, rtt⟩])
  isCubic := sch.isCubic
  maxRetriesOnTimeoutOrNack := sch.maxRetriesOnTimeoutOrNack
  disableCwa := sch.disableCwa
  toUri := sch.toUri

theorem recording_projects (sch : Scheme κ) : Projects Prod.fst (recording sch) sch where
  cwnd _ := rfl
  increaseWindow _ _ := rfl
  decreaseWindow _ _ := rfl
  backoffRto _ := rfl
  getEstimatedRto _ := rfl
  addMeasurement _ _ _ _ _ := rfl
  isCubic := rfl
  maxRetries := rfl
  disableCwa := rfl
  toUri := rfl

/-- Noting the calls changes nothing in what the pipeline does. -/
theorem exec_recording (sch : Scheme κ) (now : Time) (control : κ) (data : Data) (es : List Event) :
    (machine sch).exec (run sch now control data) es =
      mapControl Prod.fst ((machine (recording sch)).exec (run (recording sch) now (control, []) data) es) :=
  exec_mapControl (recording_projects sch) now (control, []) data es

/-- The runs of the pipeline are the runs in which the calls are noted. -/
theorem runs_recording (sch : Scheme κ) (now : Time) (control : κ) (data : Data) (es : List Event) :
    (machine sch).Runs (run sch now control data) es ↔
      (machine (recording sch)).Runs (run (recording sch) now (control, []) data) es :=
  runs_mapControl (recording_projects sch) now (control, []) data es

/-- The calls made so far. -/
def measurements (s : Adaptive (κ × List Measurement)) : List Measurement := s.control.2

/-- The calls made between `s` and `t`. -/
def noted (s t : Adaptive (κ × List Measurement)) : List Measurement := (measurements t).drop (measurements s).length

/-- The times at which Interests for the segment were expressed. -/
def expressed (segNo : ℕ) (h : List Attempt) : List Time :=
  (h.filter fun a => a.segNo = segNo ∧ a.isSent).map Attempt.now

/-- A measurement, when the Interests of `h` have been expressed, is of a segment with a single Interest,
sent as long ago as the measured time, and no other measurement is of that segment. -/
structure Karns (h : List Attempt) (s t : Adaptive (κ × List Measurement)) : Prop where
  single : ∀ m ∈ noted s t, expressed m.segNo h = [m.now - m.rtt] ∧ m.segNo ∉ s.retxCount
  once : (noted s t).length ≤ 1 ∧ ∀ m ∈ noted s t, ∀ m' ∈ measurements s, m'.segNo ≠ m.segNo

/-- The rule for every step of a run. -/
def KarnsRule (sch : Scheme κ) (now : Time) (control : κ) (data : Data) (es : List Event) : Prop :=
  ∀ before e after, es = before ++ e :: after →
    Karns (history (recording sch) now (control, []) data before)
      ((machine (recording sch)).exec (run (recording sch) now (control, []) data) before)
      (step (recording sch) ((machine (recording sch)).exec (run (recording sch) now (control, []) data) before) e)

/-- An accepted packet for a retransmitted segment finds its entry in state `Retransmitted`, and one for
another segment does not erase its entry through its own FinalBlockId. -/
def EntryTells (sch : Scheme κ) (s : Adaptive κ) : Event → Prop
  | .data now id d => Accepts sch s (.data now id d) →
      (d.segmentNo ∈ s.retxCount → ((entriesAt d s).infoOf d.segmentNo).state = .retransmitted) ∧
      (d.segmentNo ∉ s.retxCount →
        ((entriesAt d s).infoOf d.segmentNo).timeSent = (s.segmentInfo.infoOf d.segmentNo).timeSent)
  | _ => True

instance (sch : Scheme κ) (s : Adaptive κ) : (e : Event) → Decidable (EntryTells sch s e)
  | .data _ _ _ => inferInstanceAs (Decidable (_ → _ ∧ _))
  | .nack _ _ _ | .expire _ _ | .checkRto _ _ | .cancel => .isTrue trivial

/-! ## The calls of `addMeasurement` -/

variable {sch : Scheme κ} {s t : Adaptive (κ × List Measurement)} {h : List Attempt} {n : ℕ}

theorem measurements_lost (sch : Scheme κ) (now : Time) (k : ℕ) (s : Adaptive (κ × List Measurement)) :
    measurements (lost (recording sch) now k s) = measurements s := by
  obtain ⟨hpos, hneg⟩ := control_lost (recording sch) now k s
  unfold measurements
  by_cases hc : LossCounts (recording sch) s
  · rw [hpos hc]; rfl
  · rw [hneg hc]

theorem measurements_acknowledge (sch : Scheme κ) (now : Time) (n : ℕ) (info : SegmentInfo) (k : ℕ)
    (c : κ × List Measurement) :
    (acknowledge (recording sch) now n info k c).2 =
      c.2 ++ if Measured info then [⟨n, now, now - info.timeSent⟩] else [] := by
  unfold acknowledge
  by_cases hm : Measured info
  · simp only [if_pos hm]
    split <;> rfl
  · simp only [if_neg hm, List.append_nil]
    split <;> rfl

/-- The call of a step: one for Data that is accepted with an entry that lets it be measured. -/
theorem noted_step (sch : Scheme κ) {e : Event} (he : enabled s e) :
    noted s (step (recording sch) s e) =
      match e with
      | .data now id d =>
        if Accepts (recording sch) s (.data now id d) ∧ Measured ((entriesAt d s).infoOf d.segmentNo) then
          [⟨d.segmentNo, now, now - ((entriesAt d s).infoOf d.segmentNo).timeSent⟩]
        else []
      | _ => [] := by
  have hresponse : Response (recording sch) s e (step (recording sch) s e) := step_response he
  unfold noted measurements
  generalize step (recording sch) s e = t at hresponse
  cases hresponse with
  | kept refused calm control =>
    rw [control, List.drop_length]
    cases e with
    | data now id d => exact (if_neg fun ha => refused ha.1).symm
    | _ => rfl
  | @accepted now id d t accepts k control =>
    rw [control, measurements_acknowledge, List.drop_left]
    by_cases hm : Measured ((entriesAt d s).infoOf d.segmentNo)
    · rw [if_pos hm]
      exact (if_pos ⟨accepts, hm⟩).symm
    · rw [if_neg hm]
      exact (if_neg fun ha => hm ha.2).symm
  | reduced reduces control =>
    have hsame : t.control.2 = s.control.2 := by rw [control]; rfl
    rw [hsame, List.drop_length]
    cases e with
    | data now id d => exact False.elim reduces.1
    | _ => rfl

/-! ## The Interests expressed -/

theorem expressed_append (n : ℕ) (h : List Attempt) (a : Attempt) :
    expressed n (h ++ [a]) = expressed n h ++ if a.segNo = n ∧ a.isSent = true then [a.now] else [] := by
  unfold expressed
  rw [List.filter_append, List.map_append]
  by_cases hc : a.segNo = n ∧ a.isSent = true
  · rw [if_pos hc, List.filter_cons_of_pos (by simpa using hc)]; rfl
  · rw [if_neg hc, List.filter_cons_of_neg (by simpa using hc)]; rfl

theorem expressed_of_ne (h : List Attempt) {a : Attempt} (hne : a.segNo ≠ n) :
    expressed n (h ++ [a]) = expressed n h := by
  rw [expressed_append, if_neg fun hc => hne hc.1, List.append_nil]

theorem expressed_exhausted (n : ℕ) (h : List Attempt) (now : Time) (m : ℕ) :
    expressed n (h ++ [⟨now, m, .exhausted⟩]) = expressed n h := by
  rw [expressed_append, if_neg fun hc => Bool.false_ne_true hc.2, List.append_nil]

/-! ## The invariant -/

/-- What the state tells about the Interests that were expressed. -/
structure Karn (h : List Attempt) (s : Adaptive (κ × List Measurement)) : Prop where
  keyed : Keyed s
  /-- An Interest for a segment that was not retransmitted is pending under the id of its entry. -/
  entered : ∀ p ∈ s.face.pending, p.2 ∉ s.retxCount →
    ∃ info, s.segmentInfo.lookup p.2 = some info ∧ info.interestId = p.1
  /-- An entry of such a segment has the time of its only Interest. -/
  sent : ∀ n info, n ∉ s.retxCount → s.segmentInfo.lookup n = some info → expressed n h = [info.timeSent]
  unmeasured : ∀ n info, n ∉ s.retxCount → s.segmentInfo.lookup n = some info → ∀ m ∈ measurements s, m.segNo ≠ n
  measured : ∀ m ∈ measurements s, Requested m.segNo s
  fresh : ∀ n, ¬ Requested n s → expressed n h = []
  resent : ∀ n ∈ s.retxCount, 2 ≤ (expressed n h).length

/-- In the callback for segment `n`: if it was not retransmitted, no other Interest for it is pending. -/
structure KarnAt (h : List Attempt) (n : ℕ) (s : Adaptive (κ × List Measurement)) : Prop where
  karn : Karn h s
  called : Called n s
  answered : n ∉ s.retxCount → ∀ p ∈ s.face.pending, p.2 ≠ n

/-- What an operation that expresses nothing does from `s` to `t`. -/
structure Steady (s t : Adaptive (κ × List Measurement)) : Prop where
  count : t.retxCount = s.retxCount
  requested : ∀ n, Requested n s → Requested n t
  pending : ∀ p ∈ t.face.pending, p ∈ s.face.pending
  /-- An entry whose Interest stays pending is kept. -/
  kept : ∀ p ∈ t.face.pending, p.2 ∉ s.retxCount → ∀ info, s.segmentInfo.lookup p.2 = some info →
    info.interestId = p.1 → ∃ info', t.segmentInfo.lookup p.2 = some info' ∧ info'.interestId = info.interestId
  entries : ∀ n info, n ∉ s.retxCount → t.segmentInfo.lookup n = some info →
    ∃ info', s.segmentInfo.lookup n = some info' ∧ info'.timeSent = info.timeSent
  measured : ∀ m ∈ measurements t, m ∈ measurements s ∨
    (Requested m.segNo s ∧ (m.segNo ∉ s.retxCount → t.segmentInfo.lookup m.segNo = none))

/-- Doing nothing is steady; an operation differs from that in what it changes. -/
theorem Steady.refl (s : Adaptive (κ × List Measurement)) : Steady s s where
  count := rfl
  requested _ hr := hr
  pending _ hp := hp
  kept _ _ _ info hl _ := ⟨info, hl, rfl⟩
  entries _ info _ hl := ⟨info, hl, rfl⟩
  measured _ hm := .inl hm

theorem Karn.transfer (hs : Karn h s) (hk : Keyed t) (hq : Steady s t) : Karn h t where
  keyed := hk
  entered p hp hn := by
    rw [hq.count] at hn
    obtain ⟨info, hl, hid⟩ := hs.entered p (hq.pending p hp) hn
    obtain ⟨info', hl', hid'⟩ := hq.kept p hp hn info hl hid
    exact ⟨info', hl', hid'.trans hid⟩
  sent n info hn hl := by
    rw [hq.count] at hn
    obtain ⟨info', hl', ht⟩ := hq.entries n info hn hl
    rw [← ht]
    exact hs.sent n info' hn hl'
  unmeasured n info hn hl m hm := by
    rw [hq.count] at hn
    obtain ⟨info', hl', -⟩ := hq.entries n info hn hl
    rcases hq.measured m hm with hm | ⟨-, hnone⟩
    · exact hs.unmeasured n info' hn hl' m hm
    · rintro rfl
      rw [hnone hn] at hl; cases hl
  measured m hm := by
    rcases hq.measured m hm with hm | ⟨hr, -⟩
    · exact hq.requested _ (hs.measured m hm)
    · exact hq.requested _ hr
  fresh n hn := hs.fresh n fun hr => hn (hq.requested n hr)
  resent := by rw [hq.count]; exact hs.resent

/-! ## The operations -/

theorem karn_doCancel (hs : Karn h s) (hk : Keyed t) (hinfo : t.segmentInfo = ∅) (hface : t.face = (doCancel s).face)
    (hrest : t.retxCount = s.retxCount ∧ measurements t = measurements s ∧ ∀ n, Requested n s → Requested n t) :
    Karn h t := by
  obtain ⟨hcount, hmeasured, hreq⟩ := hrest
  refine hs.transfer hk { count := hcount, requested := hreq, pending := ?_, kept := ?_, entries := ?_, measured := ?_ }
  · intro p hp
    rw [hface] at hp
    exact (Face.mem_removeAll.1 hp).1
  · -- the id of the entry is withdrawn
    intro p hp _ info hl hid
    rw [hface] at hp
    exact absurd (List.mem_map.2 ⟨⟨p.2, info⟩, AList.mem_lookup_iff.1 hl, hid⟩) (Face.mem_removeAll.1 hp).2
  · intro n info _ hl
    rw [hinfo] at hl; cases hl
  · intro m hm
    rw [hmeasured] at hm
    exact .inl hm

theorem karn_cancel (hs : Karn h s) (hgo : s.isStopping = false) : Karn h (cancel s) := by
  have hk := keyed_cancel hs.keyed hgo
  rw [cancel_of_going hgo] at hk ⊢
  exact karn_doCancel hs hk rfl rfl ⟨rfl, rfl, fun _ hr => hr⟩

theorem karn_onFailure {reason : String} (hs : Karn h s) (hgo : s.isStopping = false) :
    Karn h (onFailure reason s) := by
  have hk : Keyed (onFailure reason s) := keyed_onFailure hs.keyed hgo
  rw [onFailure_of_going _ hgo] at hk ⊢
  exact karn_doCancel hs hk rfl rfl ⟨rfl, rfl, fun _ hr => hr⟩

theorem karn_succeed (hs : Karn h s) (hgo : s.isStopping = false) : Karn h (succeed s) := by
  have hk := keyed_succeed hs.keyed hgo
  unfold succeed at hk ⊢
  rw [cancel_of_going hgo] at hk ⊢
  exact karn_doCancel hs hk rfl rfl ⟨rfl, rfl, fun _ hr => hr⟩

/-- Erasing the entries after a segment withdraws their Interests. -/
theorem karn_cancelInFlight {last : ℕ} (hs : Karn h s) (hk : Keyed t)
    (hinfo : t.segmentInfo = (cancelInFlightSegmentsGreaterThan last s).segmentInfo)
    (hface : t.face = (cancelInFlightSegmentsGreaterThan last s).face)
    (hrest : t.retxCount = s.retxCount ∧ measurements t = measurements s ∧ ∀ n, Requested n s → Requested n t) :
    Karn h t := by
  obtain ⟨hcount, hmeasured, hreq⟩ := hrest
  have hlookup : ∀ m, t.segmentInfo.lookup m = if m ≤ last then s.segmentInfo.lookup m else none := by
    intro m
    rw [hinfo, lookup_cancelInFlight]
  refine hs.transfer hk { count := hcount, requested := hreq, pending := ?_, kept := ?_, entries := ?_, measured := ?_ }
  · intro p hp
    rw [hface] at hp
    exact (Face.mem_removeAll.1 hp).1
  · intro p hp _ info hl hid
    rw [hface] at hp
    refine ⟨info, ?_, rfl⟩
    rw [hlookup, if_pos, hl]
    by_contra hlt
    have hl' : (s.segmentInfo.filterKeys fun n => last < n).lookup p.2 = some info := by
      rw [AList.lookup_filterKeys, if_pos (by simpa using hlt), hl]
    exact (Face.mem_removeAll.1 hp).2 (List.mem_map.2 ⟨⟨p.2, info⟩, AList.mem_lookup_iff.1 hl', hid⟩)
  · intro n info _ hl
    rw [hlookup] at hl
    split at hl
    · exact ⟨info, hl, rfl⟩
    · cases hl
  · intro m hm
    rw [hmeasured] at hm
    exact .inl hm

theorem karn_learnLast (hs : Karn h s) (last : ℕ) (hgo : s.isStopping = false) : Karn h (learnLast last s) :=
  karn_cancelInFlight hs (keyed_learnLast hs.keyed last hgo) rfl rfl ⟨rfl, rfl, fun _ hr => hr⟩

/-- Erasing the entry of the segment that is called for. -/
theorem karn_erase (hs : KarnAt h n s) (hk : Keyed t)
    (hlookup : ∀ m, t.segmentInfo.lookup m = if m = n then none else s.segmentInfo.lookup m)
    (hrest : t.face = s.face ∧ t.retxCount = s.retxCount ∧ measurements t = measurements s ∧
      ∀ n, Requested n s → Requested n t) : Karn h t := by
  obtain ⟨hface, hcount, hmeasured, hreq⟩ := hrest
  refine hs.karn.transfer hk
    { count := hcount, requested := hreq, pending := ?_, kept := ?_, entries := ?_, measured := ?_ }
  · intro p hp
    rw [hface] at hp
    exact hp
  · intro p hp hn info hl _
    rw [hface] at hp
    refine ⟨info, ?_, rfl⟩
    rw [hlookup, if_neg, hl]
    rintro rfl
    exact hs.answered hn p hp rfl
  · intro m info _ hl
    rw [hlookup] at hl
    split at hl
    · cases hl
    · exact ⟨info, hl, rfl⟩
  · intro m hm
    rw [hmeasured] at hm
    exact .inl hm

theorem karn_dropped (hs : KarnAt h n s) : Karn h (dropped n s) :=
  karn_erase hs (keyed_dropped hs.called) (fun _ => lookup_dropped) ⟨rfl, rfl, rfl, fun _ hr => hr⟩

theorem karn_handleFail {reason : String} (hs : KarnAt h n s) : Karn h (handleFail n reason s) := by
  rcases handleFail_cases n reason hs.called.going with ⟨-, -, heq⟩ | ⟨-, heq⟩ | ⟨-, heq⟩
  · rw [heq]; exact karn_onFailure hs.karn hs.called.going
  · rw [heq]; exact hs.karn
  · rw [heq]
    rcases giveUp_cases n reason s with ⟨-, heq⟩ | ⟨-, heq⟩
    · rw [heq]; exact karn_onFailure (karn_dropped hs) hs.called.going
    · rw [heq]
      exact karn_cancelInFlight (karn_dropped hs) (keyed_gaveUp hs.called) rfl rfl ⟨rfl, rfl, fun _ hr => hr⟩

theorem karn_answered (hs : Karn h s) (id : ℕ) : Karn h (answered id s) := by
  refine hs.transfer (keyed_answered hs.keyed id) { Steady.refl s with pending := ?_, kept := ?_ }
  · intro p hp
    exact (Face.mem_removePendingInterest.1 hp).1
  · intro p _ _ info hl _
    exact ⟨info, hl, rfl⟩

theorem karnAt_answered {id : ℕ} (hs : Karn h s) (hgo : s.isStopping = false) (hn : s.face.segmentOf id = some n) :
    KarnAt h n (answered id s) where
  karn := karn_answered hs id
  called := called_answered hs.keyed hgo hn
  answered hno p hp hpn := by
    -- a second Interest for the segment would have the id of the entry, too
    obtain ⟨hp, hne⟩ := Face.mem_removePendingInterest.1 hp
    obtain ⟨info, hl, hid⟩ := hs.entered _ (Face.mem_of_segmentOf hn) hno
    obtain ⟨info', hl', hid'⟩ := hs.entered p hp (hpn ▸ hno)
    rw [hpn, hl] at hl'; cases hl'
    exact hne (hid'.symm.trans hid)

theorem karnAt_learnt (hs : KarnAt h n s) (last : ℕ) : KarnAt h n (learnt last s) where
  karn := karn_cancelInFlight hs.karn (called_learnt hs.called last).keyed rfl rfl ⟨rfl, rfl, fun _ hr => hr⟩
  called := called_learnt hs.called last
  answered hn p hp := hs.answered hn p (Face.mem_removeAll.1 hp).1

theorem karn_lost (sch : Scheme κ) (hs : Karn h s) (now : Time) (k : ℕ) : Karn h (lost (recording sch) now k s) := by
  have hk : Keyed (lost (recording sch) now k s) := keyed_lost hs.keyed now k
  have hm := measurements_lost sch now k s
  obtain ⟨r, c, l, heq⟩ := lost_frame (recording sch) now k s
  rw [heq] at hk hm ⊢
  exact hs.transfer hk { Steady.refl s with measured := fun m hmem => .inl (hm ▸ hmem) }

/-- A segment with an entry changes its state and nothing else. -/
theorem karn_requeue (hs : KarnAt h n s) (hn : n ∉ s.retxCount → n ∈ s.segmentInfo) : Karn h (requeue n s) := by
  refine hs.karn.transfer (keyed_requeue hs.called)
    { Steady.refl s with kept := ?_, entries := ?_, measured := fun _ hm => .inl hm }
  · intro p hp hno info hl _
    refine ⟨info, ?_, rfl⟩
    rw [lookup_requeue, if_neg, hl]
    rintro rfl
    exact hs.answered hno p hp rfl
  · intro m info hno hl
    rw [lookup_requeue] at hl
    split at hl
    · rename_i hm; subst hm; cases hl
      exact ⟨_, SegmentMap.lookup_of_mem (hn hno), rfl⟩
    · exact ⟨info, hl, rfl⟩

theorem karn_requeueAll (ns : List ℕ) (hs : Karn h s) (hgo : s.isStopping = false)
    (hmem : ∀ n ∈ ns, n ∈ s.segmentInfo.inFlight) : Karn h (requeueAll ns s) := by
  have hk := keyed_requeueAll ns hs.keyed hgo hmem
  have hlookup := lookup_requeueAll ns s
  obtain ⟨i, heq⟩ := requeueAll_frame ns s
  rw [heq] at hk hlookup ⊢
  refine hs.transfer hk { Steady.refl s with kept := ?_, entries := ?_, measured := fun _ hm => .inl hm }
  · intro p _ _ info hl _
    rw [hlookup p.2]
    split
    · exact ⟨_, rfl, by rw [SegmentMap.infoOf_of_lookup hl]⟩
    · exact ⟨info, hl, rfl⟩
  · intro m info _ hl
    rw [hlookup m] at hl
    split at hl
    · rename_i hm; cases hl
      exact ⟨_, SegmentMap.lookup_of_mem (SegmentMap.mem_of_mem_inFlight (hmem m hm)), rfl⟩
    · exact ⟨info, hl, rfl⟩

/-- The other segments keep their entries when a segment is accepted. -/
theorem lookup_accept_of_ne (sch : Scheme κ) {d : Data} (now : Time) (s : Adaptive (κ × List Measurement)) {m : ℕ}
    (hm : m ≠ d.segmentNo) :
    (accept (recording sch) now d (touch d.segmentNo s)).segmentInfo.lookup m = s.segmentInfo.lookup m := by
  rw [lookup_accept, if_neg hm, lookup_touch, if_neg hm]

/-- The segment itself loses its entry if it is measured. -/
theorem lookup_accept_self (sch : Scheme κ) {d : Data} (now : Time) (s : Adaptive (κ × List Measurement)) :
    (accept (recording sch) now d (touch d.segmentNo s)).segmentInfo.lookup d.segmentNo =
      if Measured (s.segmentInfo.infoOf d.segmentNo) then none
      else some { s.segmentInfo.infoOf d.segmentNo with state := .retxReceived } := by
  rw [lookup_accept, if_pos rfl, infoOf_touch]
  rfl

/-- The only new measurement is that of the accepted segment. -/
theorem measurements_accept (sch : Scheme κ) {d : Data} {now : Time} {s : Adaptive (κ × List Measurement)}
    {m : Measurement} (hm : m ∈ measurements (accept (recording sch) now d (touch d.segmentNo s))) :
    m ∈ measurements s ∨ (m.segNo = d.segmentNo ∧ Measured (s.segmentInfo.infoOf d.segmentNo)) := by
  obtain ⟨k, hcontrol⟩ := control_accept (recording sch) now d (touch d.segmentNo s)
  unfold measurements at hm
  rw [hcontrol, measurements_acknowledge, infoOf_touch] at hm
  rcases List.mem_append.1 hm with hm | hm
  · exact .inl hm
  · split at hm
    · rename_i hyes
      rw [List.mem_singleton.1 hm]
      exact .inr ⟨rfl, hyes⟩
    · cases hm

/-- A segment that is accepted without being measured had an entry: one made by `operator[]` is measured. -/
theorem mem_of_not_measured {segmentInfo : SegmentMap} (hno : ¬ Measured (segmentInfo.infoOf n)) : n ∈ segmentInfo := by
  by_contra hmem
  refine hno (.inl ?_)
  unfold SegmentMap.infoOf
  rw [SegmentMap.lookup_of_notMem hmem]
  rfl

/-- An accepted segment is measured, and then has no entry, or keeps its entry. -/
theorem karn_accept (sch : Scheme κ) {d : Data} {now : Time} (hs : KarnAt h d.segmentNo s) :
    Karn h (accept (recording sch) now d (touch d.segmentNo s)) := by
  have hk : Keyed (accept (recording sch) now d (touch d.segmentNo s)) := keyed_received hs.called
  have hother := fun m => lookup_accept_of_ne sch (d := d) now s (m := m)
  have hmine := lookup_accept_self sch (d := d) now s
  refine hs.karn.transfer hk { count := ?_, requested := ?_, pending := ?_, kept := ?_, entries := ?_, measured := ?_ }
  · obtain ⟨c, i, heq⟩ := accept_frame (recording sch) now d (touch d.segmentNo s)
    rw [heq]; rfl
  · obtain ⟨c, i, heq⟩ := accept_frame (recording sch) now d (touch d.segmentNo s)
    rw [heq]
    exact fun n hr => hr
  · obtain ⟨c, i, heq⟩ := accept_frame (recording sch) now d (touch d.segmentNo s)
    rw [heq]
    exact fun p hp => hp
  · intro p hp hno info hl _
    refine ⟨info, ?_, rfl⟩
    rw [hother, hl]
    obtain ⟨c, i, heq⟩ := accept_frame (recording sch) now d (touch d.segmentNo s)
    rw [heq] at hp
    intro hpd
    exact hs.answered (hpd ▸ hno) p hp hpd
  · intro m info _ hl
    by_cases hm : m = d.segmentNo
    · subst hm
      rw [hmine] at hl
      split at hl
      · cases hl
      · rename_i hno; cases hl
        exact ⟨_, SegmentMap.lookup_of_mem (mem_of_not_measured hno), rfl⟩
    · rw [hother m hm] at hl
      exact ⟨info, hl, rfl⟩
  · intro m hm
    rcases measurements_accept sch hm with hm | ⟨heq, hyes⟩
    · exact .inl hm
    · rw [heq, hmine, if_pos hyes]
      exact .inr ⟨hs.called.requested, fun _ => rfl⟩

/-! ## Steps -/

/-- The handlers express nothing. -/
theorem karn_handle {e : Event} (hs : Karn h s) (he : enabled s e) : Karn h (handle (recording sch) s e).state := by
  have hp : Preserves (closed (recording sch)) {} (Karn h) (Karn h)
      (fun n s => KarnAt h n s ∧ (n ∉ s.retxCount → n ∈ s.segmentInfo)) (fun n s => KarnAt h n s) :=
    { going := fun hs => hs.1.called.going
      idle := fun hs => hs.1.karn
      stopped := fun id hs _ => karn_answered hs id
      cancel := fun hs hgo => karn_cancel hs hgo
      answered := fun {s id n} hs hgo hn => by
        refine ⟨karnAt_answered hs hgo hn, fun hno => ?_⟩
        obtain ⟨info, hl, -⟩ := hs.entered _ (Face.mem_of_segmentOf hn) hno
        exact SegmentMap.mem_iff_lookup.2 ⟨info, hl⟩
      requeue := fun now hs _ => karn_lost (closed sch) (karn_requeue hs.1 hs.2) now 1
      expired := fun now hs hgo _ _ hmem => karn_lost (closed sch) (karn_requeueAll _ hs hgo hmem) now _
      fail := fun _ hs _ => karn_handleFail hs.1
      learnStop := fun hs _ _ _ => karn_onFailure (karn_learnLast hs.1.karn _ hs.1.called.going) hs.1.called.going
      plain := fun hs => hs.1
      learn := fun hs _ _ _ => karnAt_learnt hs.1 _
      ignored := fun {s n} hs hc hn => by
        have hk := (keyed_preserves (closed (recording sch)) {}).ignored hs.called hc hn
        exact hs.karn.transfer hk { Steady.refl s with measured := fun _ hm => .inl hm }
      duplicate := fun {s n} hs _ _ => by
        refine karn_erase hs (keyed_eraseInfo (keyed_touch hs.called) _ hs.called.going) (fun m => ?_)
          ⟨rfl, rfl, rfl, fun _ hr => hr⟩
        rw [lookup_eraseInfo, lookup_touch]
        split <;> rfl
      complete := fun now hs _ _ _ _ =>
        karn_succeed (karn_accept (closed sch) hs) ((isStopping_accept _).trans hs.called.going)
      accept := fun now hs _ _ _ _ => karn_accept (closed sch) hs
      schedule := fun now hs _ => by
        rw [schedulePackets_closed]
        exact hs }
  exact closed_rule hp hs he

/-- A retransmission adds an Interest for a segment that counts as retransmitted from then on. -/
theorem karn_resend (sch : Scheme κ) {queue : List ℕ} (hs : Karn h s) (now : Time) (hn : n ∈ s.segmentInfo) :
    Karn (h ++ [⟨now, n, .retransmission⟩]) (resend (recording sch) now n (countRetx n (popRetx queue s))) := by
  obtain ⟨info, hl⟩ := SegmentMap.mem_iff_lookup.1 hn
  have hk : Keyed (resend (recording sch) now n (countRetx n (popRetx queue s))) :=
    keyed_resend (keyed_countRetx (keyed_popRetx hs.keyed)) hn
  have hcount : ∀ m, m ∉ (resend (recording sch) now n (countRetx n (popRetx queue s))).retxCount →
      m ≠ n ∧ m ∉ s.retxCount := by
    intro m hm
    exact not_or.1 fun hc => hm (AList.mem_insert _ |>.2 hc)
  have hlookup : ∀ m, m ≠ n →
      (resend (recording sch) now n (countRetx n (popRetx queue s))).segmentInfo.lookup m =
        s.segmentInfo.lookup m := by
    intro m hm
    rw [lookup_resend, if_neg hm]
    rfl
  have hmine : expressed n (h ++ [⟨now, n, .retransmission⟩]) = expressed n h ++ [now] := by
    rw [expressed_append, if_pos ⟨rfl, rfl⟩]
  refine ⟨hk, ?_, ?_, ?_, hs.measured, ?_, ?_⟩
  · intro p hp hno
    obtain ⟨hpn, hno⟩ := hcount _ hno
    rcases Face.mem_expressInterest.1 hp with hp | rfl
    · rw [hlookup _ hpn]
      exact hs.entered p (Face.mem_removePendingInterest.1 hp).1 hno
    · exact absurd rfl hpn
  · intro m info hno hl
    obtain ⟨hmn, hno⟩ := hcount _ hno
    rw [hlookup m hmn] at hl
    rw [expressed_of_ne _ (Ne.symm hmn)]
    exact hs.sent m info hno hl
  · intro m info hno hl
    obtain ⟨hmn, hno⟩ := hcount _ hno
    rw [hlookup m hmn] at hl
    exact hs.unmeasured m info hno hl
  · intro m hm
    have hmn : m ≠ n := by
      rintro rfl
      exact hm (hs.keyed.mem_requested hn)
    rw [expressed_of_ne _ (Ne.symm hmn)]
    exact hs.fresh m hm
  · intro m hm
    by_cases hmn : m = n
    · subst hmn
      rw [hmine, List.length_append, List.length_singleton]
      by_cases hold : m ∈ s.retxCount
      · have htwo := hs.resent m hold
        omega
      · rw [hs.sent m info hold hl]
        rfl
    · rw [expressed_of_ne _ (Ne.symm hmn)]
      exact hs.resent m ((AList.mem_insert _).1 hm |>.resolve_left hmn)

/-- Retries that are used up express nothing. -/
theorem karn_exhausted {queue : List ℕ} (hs : Karn h s) (now : Time) (hn : n ∈ s.retxCount) :
    Karn (h ++ [⟨now, n, .exhausted⟩]) (countRetx n (popRetx queue s)) := by
  have hcounted : ∀ m, m ∈ (countRetx n (popRetx queue s)).retxCount ↔ m ∈ s.retxCount := by
    intro m
    refine (AList.mem_insert _).trans (or_iff_right_of_imp ?_)
    rintro rfl
    exact hn
  refine ⟨keyed_countRetx (keyed_popRetx hs.keyed), ?_, ?_, ?_, hs.measured, ?_, ?_⟩
  · intro p hp hno
    exact hs.entered p hp fun hm => hno ((hcounted _).2 hm)
  · intro m info hno hl
    rw [expressed_exhausted]
    exact hs.sent m info (fun hm => hno ((hcounted _).2 hm)) hl
  · intro m info hno hl
    exact hs.unmeasured m info (fun hm => hno ((hcounted _).2 hm)) hl
  · intro m hm
    rw [expressed_exhausted]
    exact hs.fresh m hm
  · intro m hm
    rw [expressed_exhausted]
    exact hs.resent m ((hcounted m).1 hm)

theorem karn_sendFirst (sch : Scheme κ) (hs : Karn h s) (now : Time) (hgo : s.isStopping = false) :
    Karn (h ++ [⟨now, nextNo s, .first⟩]) (sendFirst (recording sch) now (nextNo s) (advance s)) := by
  have hnew : ¬ Requested (nextNo s) s := fun hr => absurd hr.1 (not_lt.2 (nextNo_spec s).2.1)
  have hlookup := fun m => lookup_sendFirst (s := advance s) (recording sch) now m hs.keyed.nextNo_notMem
  refine ⟨keyed_sendFirst hs.keyed hgo, ?_, ?_, ?_, ?_, ?_, ?_⟩
  · intro p hp hno
    rw [hlookup]
    rcases Face.mem_expressInterest.1 hp with hp | rfl
    · have hpn : p.2 ≠ nextNo s := fun hpn => hnew (hpn ▸ hs.keyed.pending p hp)
      rw [if_neg hpn]
      exact hs.entered p hp hno
    · exact ⟨_, if_pos rfl, rfl⟩
  · intro m info hno hl
    rw [hlookup] at hl
    split at hl
    · rename_i hm; subst hm; cases hl
      rw [expressed_append, if_pos ⟨rfl, rfl⟩, hs.fresh _ hnew]
      rfl
    · rename_i hm
      rw [expressed_of_ne _ (Ne.symm hm)]
      exact hs.sent m info hno hl
  · intro m info hno hl μ hμ
    rw [hlookup] at hl
    split at hl
    · rename_i hm
      rintro rfl
      exact hnew (hm ▸ hs.measured μ hμ)
    · exact hs.unmeasured m info hno hl μ hμ
  · exact fun m hm => requested_advance _ (hs.measured m hm)
  · intro m hm
    have hmn : m ≠ nextNo s := by
      rintro rfl
      exact hm (requested_nextNo s)
    rw [expressed_of_ne _ (Ne.symm hmn)]
    exact hs.fresh m fun hr => hm (requested_advance m hr)
  · intro m hm
    rw [expressed_append, List.length_append]
    exact le_trans (hs.resent m hm) (Nat.le_add_right _ _)

theorem karn_log (sch : Scheme κ) :
    LogPreserves (recording sch) fun s h => Karn h s where
  pop hs _ _ := hs.transfer (keyed_popRetx hs.keyed) { Steady.refl _ with measured := fun _ hm => .inl hm }
  resend now hs _ hn _ _ := karn_resend sch hs now hn
  fail := by
    intro s h n queue now reason hs _ hn hgo hex
    obtain ⟨c, hc, -⟩ := hex
    have hretx : n ∈ s.retxCount := AList.lookup_isSome.1 (by rw [hc]; rfl)
    have hsame : Karn (h ++ [⟨now, n, .exhausted⟩]) (countRetx n (popRetx queue s)) := karn_exhausted hs now hretx
    refine karn_handleFail ⟨hsame, ⟨hsame.keyed, hgo, hs.keyed.mem_requested hn⟩, fun hno => ?_⟩
    exact absurd ((AList.mem_insert _).2 (.inl rfl)) hno
  skip hs _ _ := hs.transfer (keyed_advance hs.keyed)
    { Steady.refl _ with requested := requested_advance, measured := fun _ hm => .inl hm }
  first now hs _ hgo _ _ := karn_sendFirst sch hs now hgo

theorem Karn.step {e : Event} (hs : Karn h s) (he : enabled s e) :
    Karn (h ++ attemptsOf (recording sch) s e) (step (recording sch) s e) :=
  (karn_log sch).step (karn_handle hs he)

theorem karn_start (control : κ) (data : Data) : Karn [] (start (control, []) data) where
  keyed := keyed_start _ data
  entered p hp := by cases hp
  sent n info _ hl := by cases hl
  unmeasured n info _ hl := by cases hl
  measured m hm := by cases hm
  fresh _ _ := rfl
  resent n hn := by cases hn

/-! ## The rule -/

/-- The entry that a packet erases through its own FinalBlockId comes back as if it were the first. -/
theorem infoOf_entriesAt (d : Data) (s : Adaptive κ) :
    (entriesAt d s).infoOf d.segmentNo = s.segmentInfo.infoOf d.segmentNo ∨
      (entriesAt d s).infoOf d.segmentNo = default := by
  unfold entriesAt
  split
  · rename_i last _ _
    unfold SegmentMap.infoOf
    rw [lookup_learnLast]
    split
    · exact .inl rfl
    · exact .inr rfl
  · exact .inl rfl

theorem infoOf_of_unmeasured {d : Data} (hno : ¬ Measured ((entriesAt d s).infoOf d.segmentNo)) :
    (entriesAt d s).infoOf d.segmentNo = s.segmentInfo.infoOf d.segmentNo := by
  rcases infoOf_entriesAt d s with heq | heq
  · exact heq
  · exact absurd (.inl (by rw [heq]; rfl)) hno

theorem retransmitted_of_unmeasured {info : SegmentInfo} (hno : ¬ Measured info) (hst : info.state ≠ .retxReceived) :
    info.state = .retransmitted := by
  cases hstate : info.state with
  | firstTimeSent => exact absurd (.inl hstate) hno
  | inRetxQueue => exact absurd (.inr hstate) hno
  | retransmitted => rfl
  | retxReceived => exact absurd hstate hst

/-- The entry of a segment with one Interest has the time of that Interest. -/
theorem Karn.expressed_of_pending (hs : Karn h s) {id : ℕ} (hn : s.face.segmentOf id = some n) (hno : n ∉ s.retxCount) :
    ∃ info, s.segmentInfo.lookup n = some info ∧ expressed n h = [(s.segmentInfo.infoOf n).timeSent] := by
  obtain ⟨info, hl, -⟩ := hs.entered _ (Face.mem_of_segmentOf hn) hno
  refine ⟨info, hl, ?_⟩
  rw [SegmentMap.infoOf_of_lookup hl]
  exact hs.sent n info hno hl

/-- Nothing is measured. -/
theorem Karns.of_noted_nil (hn : noted s t = []) : Karns h s t := by
  constructor
  · intro m hm
    rw [hn] at hm; cases hm
  · rw [hn]
    exact ⟨Nat.zero_le _, fun m hm => by cases hm⟩

theorem karns_iff {e : Event} (hs : Karn h s) (he : enabled s e) :
    Karns h s (step (recording sch) s e) ↔ EntryTells (recording sch) s e := by
  have hnoted := noted_step sch he
  cases e with
  | data now id d =>
    by_cases haccepts : Accepts (recording sch) s (.data now id d)
    · by_cases hmeasured : Measured ((entriesAt d s).infoOf d.segmentNo)
      · replace hnoted := hnoted.trans (if_pos ⟨haccepts, hmeasured⟩)
        constructor
        · rintro ⟨hsingle, -⟩ -
          rw [hnoted] at hsingle
          obtain ⟨hexp, hno⟩ := hsingle _ (List.mem_singleton_self _)
          obtain ⟨info, -, hexp'⟩ := hs.expressed_of_pending he hno
          refine ⟨fun hyes => absurd hyes hno, fun _ => ?_⟩
          have htime := List.singleton_inj.1 (hexp.symm.trans hexp')
          rwa [sub_sub_cancel] at htime
        · intro htells
          obtain ⟨hretx, htime⟩ := htells haccepts
          have hno : d.segmentNo ∉ s.retxCount := by
            intro hyes
            rcases hmeasured with hst | hst
            · rw [hretx hyes] at hst; cases hst
            · rw [hretx hyes] at hst; cases hst
          obtain ⟨info, hl, hexp⟩ := hs.expressed_of_pending he hno
          constructor
          · intro m hm
            rw [hnoted] at hm
            rw [List.mem_singleton.1 hm]
            refine ⟨?_, hno⟩
            rw [hexp, sub_sub_cancel, htime hno]
          · rw [hnoted]
            refine ⟨le_rfl, fun m hm m' hm' => ?_⟩
            rw [List.mem_singleton.1 hm]
            exact hs.unmeasured _ info hno hl m' hm'
      · replace hnoted := hnoted.trans (if_neg fun hc => hmeasured hc.2)
        obtain ⟨-, -, hst, -⟩ := haccepts
        exact iff_of_true (.of_noted_nil hnoted) fun _ =>
          ⟨fun _ => retransmitted_of_unmeasured hmeasured hst, fun _ => by rw [infoOf_of_unmeasured hmeasured]⟩
    · replace hnoted := hnoted.trans (if_neg fun hc => haccepts hc.1)
      exact iff_of_true (.of_noted_nil hnoted) fun hyes => absurd hyes haccepts
  | nack now id reason => exact iff_of_true (.of_noted_nil hnoted) trivial
  | expire now id => exact iff_of_true (.of_noted_nil hnoted) trivial
  | checkRto now order => exact iff_of_true (.of_noted_nil hnoted) trivial
  | cancel => exact iff_of_true (.of_noted_nil hnoted) trivial

theorem karnsRule_iff (sch : Scheme κ) (now : Time) (control : κ) (data : Data) (es : List Event)
    (hr : (machine (recording sch)).Runs (run (recording sch) now (control, []) data) es) :
    KarnsRule sch now control data es ↔
      (machine (recording sch)).Each (EntryTells (recording sch)) (run (recording sch) now (control, []) data) es := by
  have hrun := (karn_log sch).run now (karn_start control data)
  rw [Machine.each_iff_split]
  unfold KarnsRule
  refine forall_congr' fun before => forall_congr' fun e => forall_congr' fun after => forall_congr' fun heq => ?_
  rw [heq] at hr
  obtain ⟨hbefore, henabled, -⟩ := (Machine.runs_append ..).1 hr
  have hkarn : Karn (history (recording sch) now (control, []) data before) _ :=
    Machine.exec_log_inv (m := machine (recording sch)) (I := fun s h => Karn h s)
      (fun s h e hs he => hs.step he) hrun hbefore
  exact karns_iff hkarn henabled

/-- Segments 2 to 5 time out, and there is a place for 2 and 3. Then the packet for the second Interest for 2 arrives,
and the packet for 5, which still waits on the queue. -/
def retransmitted : List Event :=
  [.data 10 1 (packet 1 none), .checkRto 5000 [2, 3, 4, 5], .data 5010 6 (packet 2 none), .data 5020 5 (packet 5 none)]

theorem karnsRule_iff_retransmitted :
    KarnsRule (Aimd.pipeline 3) 0 (Aimd.initial (Aimd.withCwnd 3) .default) (packet 0 none) retransmitted :=
  (karnsRule_iff (Aimd.pipeline 3) 0 _ (packet 0 none) retransmitted (by decide +kernel)).2 (by decide +kernel)

/-- Segments 2 to 5 time out, and there is a place for 2 and 3; these time out again and queue behind 4
and 5. Then the packet for the second Interest for 2 arrives. -/
def queuedAgain : List Event :=
  [.data 10 1 (packet 1 none), .checkRto 5000 [2, 3, 4, 5], .checkRto 20000 [2, 3, 4, 5],
    .data 20010 6 (packet 2 none)]

theorem queued_again_is_measured :
    (machine (recording (Aimd.pipeline 3))).Runs
        (run (recording (Aimd.pipeline 3)) 0 (Aimd.initial (Aimd.withCwnd 3) .default, []) (packet 0 none))
        queuedAgain ∧
      ¬ KarnsRule (Aimd.pipeline 3) 0 (Aimd.initial (Aimd.withCwnd 3) .default) (packet 0 none) queuedAgain := by
  refine ⟨by decide +kernel, fun hrule => ?_⟩
  have hkarns := hrule (queuedAgain.take 3) (.data 20010 6 (packet 2 none)) [] rfl
  have hsingle := (hkarns.single ⟨2, 20010, 15010⟩ (by decide +kernel)).2
  revert hsingle
  decide +kernel

end NdnTools.Chunks.Adaptive
