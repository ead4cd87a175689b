/-
What the adaptive pipelines hand on to `onData`: an answer with Data at most that packet, every other
event nothing. So an arriving packet is handed on once for each Interest it answers at most, and no
other packet is.
-/
import NdnTools.Chunks.Adaptive.Delivery

namespace NdnTools.Chunks.Adaptive

variable {κ : Type} {sch : Scheme κ} {s s' : Adaptive κ} {n : ℕ} {L : List ℕ}

/-- Nothing has been handed on since `L` was. -/
def HandedOn (L : List ℕ) (s : Adaptive κ) : Prop := Keyed s ∧ s.delivered = L

/-- No segment is looked up. -/
def noneReceived (κ : Type) : Points κ where
  receive _ _ := False

theorem delivered_cancel (s : Adaptive κ) : (cancel s).delivered = s.delivered := by
  unfold cancel
  split <;> rfl

theorem delivered_onFailure (reason : String) (s : Adaptive κ) : (onFailure reason s).delivered = s.delivered := by
  obtain ⟨_, _, _, _, heq, -⟩ := onFailure_frame reason s
  rw [heq]

theorem delivered_lost (now : Time) (k : ℕ) (s : Adaptive κ) : (lost sch now k s).delivered = s.delivered := by
  obtain ⟨_, _, _, heq⟩ := lost_frame sch now k s
  rw [heq]

theorem delivered_requeueAll (ns : List ℕ) (s : Adaptive κ) : (requeueAll ns s).delivered = s.delivered := by
  obtain ⟨_, heq⟩ := requeueAll_frame ns s
  rw [heq]

theorem delivered_accept (now : Time) (d : Data) (s : Adaptive κ) :
    (accept sch now d s).delivered = s.delivered ++ [d.segmentNo] := by
  obtain ⟨_, _, heq⟩ := accept_frame sch now d s
  rw [heq]

/-- `schedulePackets` hands nothing on. -/
theorem handedOn_loop (sch : Scheme κ) (P : Points κ) : LoopPreserves sch P (HandedOn L) where
  pop h hq hn := ⟨(keyed_loop sch P).pop h.1 hq hn, h.2⟩
  going h hn := h.1.going_of_mem hn
  resend now h hq hn hex hp := ⟨(keyed_loop sch P).resend now h.1 hq hn hex hp, h.2⟩
  fail reason h hq hn hex hp :=
    ⟨(keyed_loop sch P).fail reason h.1 hq hn hex hp, (delivered_handleFail _ _ _).trans h.2⟩
  skip h hq hc := ⟨(keyed_loop sch P).skip h.1 hq hc, h.2⟩
  first now h hq hgo hb hf := ⟨(keyed_loop sch P).first now h.1 hq hgo hb hf, h.2⟩

/-- Without Data nothing is handed on. -/
theorem handedOn_preserves (sch : Scheme κ) :
    Preserves sch (noneReceived κ) (HandedOn L) (HandedOn L) (fun n s => Called n s ∧ s.delivered = L)
      (fun n s => Called n s ∧ s.delivered = L) where
  going h := h.1.going
  idle h := ⟨h.1.keyed, h.2⟩
  stopped id h _ := ⟨keyed_answered h.1 id, h.2⟩
  cancel h hgo := ⟨keyed_cancel h.1 hgo, (delivered_cancel _).trans h.2⟩
  answered h hgo hn := ⟨called_answered h.1 hgo hn, h.2⟩
  requeue now h _ := ⟨keyed_lost (keyed_requeue h.1) now 1, (delivered_lost now 1 _).trans h.2⟩
  expired now h hgo _ _ hmem := ⟨keyed_lost (keyed_requeueAll _ h.1 hgo hmem) now _,
    (delivered_lost now _ _).trans ((delivered_requeueAll _ _).trans h.2)⟩
  fail _ h _ := ⟨keyed_handleFail h.1, (delivered_handleFail _ _ _).trans h.2⟩
  learnStop h _ _ _ := ⟨keyed_onFailure (keyed_learnLast h.1.keyed _ h.1.going) h.1.going,
    (delivered_onFailure _ _).trans h.2⟩
  plain h := h
  learn h _ _ _ := ⟨called_learnt h.1 _, h.2⟩
  ignored h hc hn := ⟨(keyed_preserves sch (noneReceived κ)).ignored h.1 hc hn, h.2⟩
  duplicate _ _ hp := hp.elim
  complete _ _ _ _ hp _ := hp.elim
  accept _ _ _ _ hp _ := hp.elim
  schedule _ h hm := (handedOn_loop sch (noneReceived κ)).loop h hm

/-- The conditions restrict nothing but what Data brings. -/
structure Points.OnlyData (P : Points κ) : Prop where
  requeue : ∀ s n, P.requeue s n
  giveUp : ∀ s n, P.giveUp s n
  schedule : ∀ s, P.schedule s
  resend : ∀ s n, P.resend s n

namespace Points.OnlyData

variable {P : Points κ}

theorem scheduleMeets (h : P.OnlyData) (now : Time) (s : Adaptive κ) : ScheduleMeets P sch now s :=
  ⟨h.schedule s, Loop.each_of_forall fun _ _ _ _ _ => ⟨fun _ => h.resend _ _, fun _ _ _ => h.giveUp _ _⟩⟩

theorem nextMeets (h : P.OnlyData) (now : Time) (next : Next κ) : NextMeets P sch now next := by
  cases next with
  | done s => trivial
  | schedulePackets s => exact h.scheduleMeets now s

theorem meets (h : P.OnlyData) {e : Event} (hdata : ∀ now id d, e = .data now id d → ∀ s,
    P.receive s d.segmentNo ∧ ∀ l, d.finalBlockId = some l → P.learn s d.segmentNo l) : Meets P sch s e := by
  cases e with
  | data now id d =>
    have hd := hdata now id d rfl
    exact fun _ => ⟨fun _ => ⟨(hd _).1, h.nextMeets now _⟩,
      fun l _ hl => ⟨(hd _).2 l hl, fun _ => ⟨(hd _).1, h.nextMeets now _⟩⟩⟩
  | nack now id reason =>
    intro n _
    cases reason with
    | none => exact fun _ _ => h.giveUp _ _
    | congestion => exact fun _ => ⟨h.requeue _ _, h.scheduleMeets now _⟩
    | duplicate => trivial
    | noRoute => exact fun _ _ => h.giveUp _ _
  | expire now id => exact fun n _ _ => ⟨h.requeue _ _, h.scheduleMeets now _⟩
  | checkRto now order => exact h.nextMeets now _
  | cancel => trivial

end Points.OnlyData

theorem meets_noneReceived {e : Event} (hno : ∀ now id d, e ≠ .data now id d) : Meets (noneReceived κ) sch s e :=
  Points.OnlyData.meets ⟨fun _ _ => trivial, fun _ _ => trivial, fun _ => trivial, fun _ _ => trivial⟩
    fun now id d he => absurd he (hno now id d)

/-- `handleData` hands on its packet or nothing. -/
theorem delivered_receive {now : Time} {d : Data} (h : Called d.segmentNo s) :
    ((receive sch now d s).finish sch now).delivered = s.delivered ∨
    ((receive sch now d s).finish sch now).delivered = s.delivered ++ [d.segmentNo] := by
  rcases receive_cases sch now d s with ⟨-, -, heq⟩ | ⟨-, heq⟩ | ⟨-, -, _, rfl, ⟨-, heq⟩ | ⟨-, heq⟩⟩
  · rw [heq]; exact .inl rfl
  · rw [heq]; exact .inl rfl
  · rw [heq]
    exact .inr ((delivered_cancel _).trans (delivered_accept now d _))
  · rw [heq]
    have hk : HandedOn (s.delivered ++ [d.segmentNo]) (accept sch now d (touch d.segmentNo s)) :=
      ⟨keyed_received h, delivered_accept now d _⟩
    exact .inr ((handedOn_loop sch {}).loop hk (scheduleMeets_any now _)).2

theorem delivered_handleData (sch : Scheme κ) (now : Time) {d : Data} (h : Called d.segmentNo s) :
    ((handleData sch now d s).finish sch now).delivered = s.delivered ∨
    ((handleData sch now d s).finish sch now).delivered = s.delivered ++ [d.segmentNo] := by
  rcases handleData_cases sch now d h.going with ⟨-, heq⟩ | ⟨last, -, -, ⟨-, -, heq⟩ | ⟨-, heq⟩⟩
  · rw [heq]; exact delivered_receive h
  · rw [heq]; exact .inl (delivered_onFailure _ _)
  · rw [heq]; exact delivered_receive (called_learnt h last)

/-- What one event hands on. -/
theorem delivered_step (sch : Scheme κ) (h : Keyed s) {e : Event} (he : enabled s e) :
    Keyed (step sch s e) ∧ ((step sch s e).delivered = s.delivered ∨
      ∃ now id d, e = .data now id d ∧ (step sch s e).delivered = s.delivered ++ [d.segmentNo]) := by
  refine ⟨(keyed_preserves sch {}).step h he (meets_any s e), ?_⟩
  by_cases hdata : ∃ now id d, e = .data now id d
  · obtain ⟨now, id, d, rfl⟩ := hdata
    have hn : s.face.segmentOf id = some d.segmentNo := he
    have hstep : step sch s (.data now id d) = (handleData sch now d (answered id s)).finish sch now := by
      simp only [step, callback, hn]
    rw [hstep]
    cases hgo : s.isStopping with
    | true =>
      have hst : (answered id s).isStopping = true := hgo
      rw [show handleData sch now d (answered id s) = .done (answered id s) from if_pos hst]
      exact .inl rfl
    | false =>
      rcases delivered_handleData sch now (called_answered h hgo hn) with heq | heq
      · exact .inl heq
      · exact .inr ⟨now, id, d, rfl, heq⟩
  · have hno : ∀ now id d, e ≠ .data now id d := fun now id d heq => hdata ⟨now, id, d, heq⟩
    exact .inl ((handedOn_preserves sch).step ⟨h, rfl⟩ he (meets_noneReceived hno)).2

/-! ## Arrivals -/

theorem delivered_answers (sch : Scheme κ) (now : Time) (d : Data) : ∀ (ids : List ℕ) {s : Adaptive κ}, Keyed s →
    let s' := (machine sch).skipping.exec s (ids.map fun id => .data now id d)
    Keyed s' ∧ ∃ k, s'.delivered = s.delivered ++ List.replicate k d.segmentNo
  | [], s, h => ⟨h, 0, by simp⟩
  | id :: ids, s, h => by
    simp only [List.map_cons, Machine.exec_cons]
    by_cases he : enabled s (.data now id d)
    · have hs : (machine sch).skipping.step s (.data now id d) = step sch s (.data now id d) := if_pos he
      rw [hs]
      obtain ⟨hk, hstep⟩ := delivered_step sch h he
      obtain ⟨hk', k, heq⟩ := delivered_answers sch now d ids hk
      refine ⟨hk', ?_⟩
      rcases hstep with h1 | ⟨now', id', d', he', h1⟩
      · exact ⟨k, by rw [heq, h1]⟩
      · cases he'
        refine ⟨k + 1, ?_⟩
        rw [heq, h1, List.append_assoc, List.singleton_append, List.replicate_succ]
    · have hs : (machine sch).skipping.step s (.data now id d) = s := if_neg he
      rw [hs]
      exact delivered_answers sch now d ids h

/-- The packet that an arrival brings. -/
def Arrival.packet : Arrival → Option Data
  | .data _ d => some d
  | _ => none

/-- What an arrival hands on: its packet, any number of times. -/
theorem delivered_arrival (h : Keyed s) {a : Arrival} (he : a.enabled s) :
    Keyed ((arrivals sch).step s a) ∧ ∃ ds : List Data, (∀ d ∈ ds, a.packet = some d) ∧
      ((arrivals sch).step s a).delivered = s.delivered ++ ds.map Data.segmentNo := by
  have hsingle : ∀ e : Event, (∀ now id d, e ≠ .data now id d) → enabled s e →
      let s' := (machine sch).skipping.exec s [e]
      Keyed s' ∧ ∃ ds : List Data, (∀ d ∈ ds, a.packet = some d) ∧
        s'.delivered = s.delivered ++ ds.map Data.segmentNo := by
    intro e hno he
    have hs : (machine sch).skipping.exec s [e] = step sch s e := if_pos he
    simp only [hs]
    obtain ⟨hk, hstep⟩ := delivered_step sch h he
    rcases hstep with heq | ⟨now, id, d, heq, -⟩
    · exact ⟨hk, [], by simp, by simpa using heq⟩
    · exact absurd heq (hno now id d)
  cases a with
  | data now d =>
    obtain ⟨hk, k, heq⟩ := delivered_answers sch now d (s.face.idsOf d.segmentNo) h
    refine ⟨hk, List.replicate k d, fun d' hd' => ?_, heq.trans (by simp)⟩
    rw [List.eq_of_mem_replicate hd']
    rfl
  | nack now id reason => exact hsingle (.nack now id reason) (fun _ _ _ h => by cases h) he
  | expire now id => exact hsingle (.expire now id) (fun _ _ _ h => by cases h) he
  | checkRto now order => exact hsingle (.checkRto now order) (fun _ _ _ h => by cases h) he
  | cancel => exact hsingle .cancel (fun _ _ _ h => by cases h) trivial

/-- A pipeline starts with nothing handed on. -/
theorem keyed_run (sch : Scheme κ) (now : Time) (control : κ) (data : Data) :
    Keyed (run sch now control data) ∧ (run sch now control data).delivered = [] := by
  rcases run_cases sch now control data with ⟨-, heq⟩ | ⟨-, heq⟩
  · rw [heq]
    exact ⟨keyed_advance (keyed_start control data), rfl⟩
  · rw [heq]
    exact ⟨keyed_sendFirst (keyed_start control data) rfl, rfl⟩

end NdnTools.Chunks.Adaptive
