/-
When ndnping finishes. `m_nOutstanding` counts the pending Interests, and from the last send on one less:
that send calls `finish`, too. So it falls to -1 with the answer for which no other Interest is pending
after the last send, and at no other time.
-/
import NdnTools.Ndnping.Client
import Mathlib.Tactic

namespace NdnTools.Ndnping

/-- The `n` numbers from `first` on, modulo 2^64. -/
def consecutive (first : UInt64) (n : ℕ) : List UInt64 := (List.range n).map fun i => first + UInt64.ofNat i

theorem consecutive_succ (first : UInt64) (n : ℕ) :
    consecutive first (n + 1) = consecutive first n ++ [first + UInt64.ofNat n] := by
  simp [consecutive, List.range_succ]

namespace Runner

variable {options : Options} {first : UInt64} {r : Runner}

/-- What has been sent and answered, with the sequence numbers from `first` on. -/
structure Tallied (options : Options) (first : UInt64) (r : Runner) : Prop where
  sameOptions : r.ping.options = options
  sent : r.ping.nSent = r.expressed.length
  within : r.ping.nSent ≤ options.nPings
  counted : 0 ≤ r.statisticsCollector.nSent
  answers : r.statisticsCollector.nSent + r.face.length = r.ping.nSent
  kinds : r.statisticsCollector.nReceived + r.statisticsCollector.nNacked + r.nTimeouts = r.statisticsCollector.nSent
  seqs : r.expressed.map Pending.seq = consecutive first r.expressed.length
  next : r.ping.nextSeq = first + UInt64.ofNat r.expressed.length
  timer : r.ping.nextPingEvent.isSome = true → r.ping.nSent < options.nPings

/-- All Interests have been sent and answered, and `afterFinish` was emitted once, then. -/
structure Finished (options : Options) (first : UInt64) (r : Runner) : Prop where
  once : r.finished = [r.statisticsCollector]
  allSent : r.ping.nSent = options.nPings
  allAnswered : r.face = []
  statistics : r.statisticsCollector.nSent = options.nPings ∧
    r.statisticsCollector.nReceived + r.statisticsCollector.nNacked + r.nTimeouts = options.nPings
  seqs : r.expressed.map Pending.seq = consecutive first options.nPings.toNat

/-- The invariant. Before the last send `m_nOutstanding` is the number of pending Interests, and then one
less. -/
structure Accounted (options : Options) (first : UInt64) (r : Runner) : Prop extends Tallied options first r where
  outstanding : r.ping.nOutstanding = r.face.length - if r.ping.nSent < options.nPings then 0 else 1
  finished : r.finished = [] ∧ (r.ping.nSent < options.nPings ∨ r.face ≠ []) ∨ Finished options first r

/-- Where `finish` is called. -/
structure Finishing (options : Options) (first : UInt64) (r : Runner) : Prop extends Tallied options first r where
  outstanding : r.ping.nOutstanding - 1 = r.face.length - if r.ping.nSent < options.nPings then 0 else 1
  unfinished : r.finished = []

/-- Nothing is left to happen. -/
def Complete (r : Runner) : Prop := r.ping.nextPingEvent = none ∧ r.face = []

instance (r : Runner) : Decidable (Complete r) := inferInstanceAs (Decidable (_ ∧ _))

/-! ## One step -/

theorem Finishing.finish (h : Finishing options first r) : Accounted options first (finish r) := by
  have hout := h.outstanding
  unfold Runner.finish
  dsimp only
  split
  · rename_i hle
    refine { h.toTallied with outstanding := hout, finished := .inl ⟨h.unfinished, ?_⟩ }
    by_cases hmore : r.ping.nSent < options.nPings
    · exact .inl hmore
    · right
      intro hnil
      rw [hnil, if_neg hmore] at hout
      simp at hout
      omega
  · rename_i hneg
    have hwithin := h.within
    have hlast : ¬ r.ping.nSent < options.nPings := by
      intro hmore
      rw [if_pos hmore] at hout
      omega
    have hnil : r.face = [] := by
      rw [if_neg hlast] at hout
      rw [← List.length_eq_zero_iff]
      omega
    have hall : r.ping.nSent = options.nPings := by omega
    have hanswers := h.answers
    have hkinds := h.kinds
    have hsent := h.sent
    rw [hnil] at hanswers
    simp only [List.length_nil] at hanswers
    refine { h.toTallied with outstanding := hout, timer := ?_, finished := .inr ⟨?_, hall, hnil, ⟨?_, ?_⟩, ?_⟩ }
    · intro hsome
      cases hsome
    · exact congrArg (· ++ [r.statisticsCollector]) h.unfinished
    · show r.statisticsCollector.nSent = options.nPings
      omega
    · show r.statisticsCollector.nReceived + r.statisticsCollector.nNacked + r.nTimeouts = options.nPings
      omega
    · show r.expressed.map Pending.seq = consecutive first options.nPings.toNat
      rw [h.seqs]
      congr 1
      omega

theorem tallied_expressPing (h : Tallied options first r) (now : Time) (hmore : r.ping.nSent < options.nPings)
    (htimer : r.ping.nextPingEvent = none) : Tallied options first (expressPing now r) := by
  have hanswers := h.answers
  have hsent := h.sent
  refine ⟨h.sameOptions, ?_, ?_, h.counted, ?_, h.kinds, ?_, ?_, ?_⟩
  · simp [expressPing, hsent]
  · show r.ping.nSent + 1 ≤ options.nPings
    omega
  · simp [expressPing]
    omega
  · simp [expressPing, nextInterest, h.seqs, consecutive_succ, h.next]
  · simp [expressPing, h.next, UInt64.ofNat_add, UInt64.add_assoc]
  · intro hsome
    have hnone : (expressPing now r).ping.nextPingEvent = none := htimer
    rw [hnone] at hsome
    cases hsome

theorem Tallied.morePings_iff (h : Tallied options first r) (hn : 1 ≤ options.nPings) :
    MorePings r.ping ↔ r.ping.nSent < options.nPings := by
  unfold MorePings
  rw [h.sameOptions]
  constructor
  · rintro (hneg | hlt)
    · omega
    · exact hlt
  · exact .inr

/-- The timer expires while Interests are to be sent: none is counted as answered. -/
theorem accounted_performPing (h : Tallied options first r) (hn : 1 ≤ options.nPings) (now : Time)
    (hmore : r.ping.nSent < options.nPings) (htimer : r.ping.nextPingEvent = none)
    (hout : r.ping.nOutstanding = r.face.length) (hf : r.finished = []) :
    Accounted options first (performPing now r) := by
  have ht := tallied_expressPing h now hmore htimer
  have hlen : (((expressPing now r).face.length : ℕ) : ℤ) = r.face.length + 1 := by simp [expressPing]
  have hout' : (expressPing now r).ping.nOutstanding = r.face.length + 1 := by
    show r.ping.nOutstanding + 1 = _
    rw [hout]
  unfold performPing
  dsimp only
  split
  · rename_i hm
    have hlt := (ht.morePings_iff hn).1 hm
    refine { ht with outstanding := ?_, timer := fun _ => hlt, finished := .inl ⟨hf, .inl hlt⟩ }
    show (expressPing now r).ping.nOutstanding = _
    rw [if_pos hlt, hout', hlen]
    omega
  · rename_i hm
    have hlast : ¬ (expressPing now r).ping.nSent < options.nPings := fun hlt => hm ((ht.morePings_iff hn).2 hlt)
    refine Finishing.finish { ht with outstanding := ?_, unfinished := hf }
    rw [if_neg hlast, hout', hlen]

theorem tallied_create (options : Options) (random : UInt64) (now : Time) (hn : 1 ≤ options.nPings) :
    Tallied options (Ping.create options random).nextSeq (create options random now) ∧
      (create options random now).ping.nSent < options.nPings := by
  refine ⟨⟨rfl, rfl, ?_, le_rfl, rfl, rfl, rfl, ?_, ?_⟩, ?_⟩
  · show (0 : ℤ) ≤ options.nPings
    omega
  · simp [create]
  · intro hsome
    cases hsome
  · show (0 : ℤ) < options.nPings
    omega

theorem accounted_start (options : Options) (random : UInt64) (now : Time) (hn : 1 ≤ options.nPings) :
    Accounted options (Ping.create options random).nextSeq (start options random now) := by
  obtain ⟨ht, hmore⟩ := tallied_create options random now hn
  exact accounted_performPing ht hn now hmore rfl rfl rfl

/-- A callback before `finish`: one Interest less is pending, and one more is counted. -/
theorem finishing_answer (h : Accounted options first r) {p : Pending} (hp : p ∈ r.face)
    {c : StatisticsCollector} {nTimeouts : ℤ} (hsent : c.nSent = r.statisticsCollector.nSent + 1)
    (hkinds : c.nReceived + c.nNacked + nTimeouts = c.nSent) :
    Finishing options first { answered p r with statisticsCollector := c, nTimeouts := nTimeouts } := by
  have hlen : ((r.face.erase p).length : ℤ) = r.face.length - 1 := by
    have hpos := List.length_pos_of_mem hp
    rw [List.length_erase_of_mem hp]
    omega
  have hout := h.outstanding
  have hanswers := h.answers
  have hcounted := h.counted
  refine { h.toTallied with counted := ?_, answers := ?_, kinds := hkinds, outstanding := ?_, unfinished := ?_ }
  · show 0 ≤ c.nSent
    omega
  · show c.nSent + ((r.face.erase p).length : ℤ) = r.ping.nSent
    omega
  · show r.ping.nOutstanding - 1 = ((r.face.erase p).length : ℤ) - if r.ping.nSent < options.nPings then 0 else 1
    rw [hlen, hout]
    omega
  · rcases h.finished with ⟨hf, -⟩ | hf
    · exact hf
    · rw [hf.allAnswered] at hp
      cases hp

theorem Accounted.step (h : Accounted options first r) (hn : 1 ≤ options.nPings) {e : Event} (he : enabled r e) :
    Accounted options first (step r e) := by
  have hkinds := h.kinds
  cases e with
  | timer now =>
    have hmore := h.timer he
    have hunfinished : r.finished = [] := by
      rcases h.finished with ⟨hf, -⟩ | hf
      · exact hf
      · have hall := hf.allSent
        omega
    have hout := h.outstanding
    rw [if_pos hmore, sub_zero] at hout
    have ht : Tallied options first { r with ping := { r.ping with nextPingEvent := none } } :=
      ⟨h.sameOptions, h.sent, h.within, h.counted, h.answers, h.kinds, h.seqs, h.next, fun _ => hmore⟩
    exact accounted_performPing ht hn now hmore rfl hout hunfinished
  | data now p =>
    refine Finishing.finish (finishing_answer h he rfl ?_)
    simp only [StatisticsCollector.recordData, answered]
    omega
  | nack p =>
    refine Finishing.finish (finishing_answer h he rfl ?_)
    simp only [StatisticsCollector.recordNack, answered]
    omega
  | timeout p =>
    refine Finishing.finish (finishing_answer h he rfl ?_)
    simp only [StatisticsCollector.recordTimeout, answered]
    omega
  | interrupt =>
    refine { h.toTallied with timer := ?_, outstanding := h.outstanding, finished := ?_ }
    · intro hsome
      cases hsome
    · exact h.finished.imp id fun hf => ⟨hf.once, hf.allSent, hf.allAnswered, hf.statistics, hf.seqs⟩

/-! ## Runs -/

/-- Without an interrupt the timer is set until the last send. -/
def Ticking (options : Options) (r : Runner) : Prop :=
  r.ping.nSent < options.nPings → r.ping.nextPingEvent.isSome = true

theorem nextPingEvent_finish (r : Runner) : (finish r).ping.nSent = r.ping.nSent ∧
    (0 < r.ping.nOutstanding → (finish r).ping.nextPingEvent = r.ping.nextPingEvent) := by
  unfold Runner.finish
  dsimp only
  split
  · exact ⟨rfl, fun _ => rfl⟩
  · refine ⟨rfl, fun hpos => ?_⟩
    omega

theorem ticking_performPing (h : Tallied options first r) (hn : 1 ≤ options.nPings) (now : Time)
    (hmore : r.ping.nSent < options.nPings) (htimer : r.ping.nextPingEvent = none) :
    Ticking options (performPing now r) := by
  have ht := tallied_expressPing h now hmore htimer
  unfold performPing
  dsimp only
  split
  · intro _
    rfl
  · rename_i hm
    intro hlt
    rw [(nextPingEvent_finish _).1] at hlt
    exact absurd ((ht.morePings_iff hn).2 hlt) hm

/-- An answer that comes before the last send does not stop the timer. -/
theorem ticking_answer (h : Accounted options first r) (ht : Ticking options r) {p : Pending} (hp : p ∈ r.face)
    {c : StatisticsCollector} {nTimeouts : ℤ} :
    Ticking options (finish { answered p r with statisticsCollector := c, nTimeouts := nTimeouts }) := by
  intro hlt
  obtain ⟨hsame, hkeep⟩ := nextPingEvent_finish { answered p r with statisticsCollector := c, nTimeouts := nTimeouts }
  rw [hsame] at hlt
  have hlt' : r.ping.nSent < options.nPings := hlt
  have hout := h.outstanding
  have hpos := List.length_pos_of_mem hp
  rw [if_pos hlt'] at hout
  rw [hkeep]
  · exact ht hlt'
  · show 0 < r.ping.nOutstanding
    omega

theorem Ticking.step (h : Accounted options first r) (ht : Ticking options r) (hn : 1 ≤ options.nPings) {e : Event}
    (he : enabled r e) (hi : e ≠ .interrupt) : Ticking options (step r e) := by
  cases e with
  | timer now =>
    have hmore := h.timer he
    have htallied : Tallied options first { r with ping := { r.ping with nextPingEvent := none } } :=
      ⟨h.sameOptions, h.sent, h.within, h.counted, h.answers, h.kinds, h.seqs, h.next, fun _ => hmore⟩
    exact ticking_performPing htallied hn now hmore rfl
  | data now p => exact ticking_answer h ht he
  | nack p => exact ticking_answer h ht he
  | timeout p => exact ticking_answer h ht he
  | interrupt => exact absurd rfl hi

theorem ticking_start (options : Options) (random : UInt64) (now : Time) (hn : 1 ≤ options.nPings) :
    Ticking options (start options random now) := by
  obtain ⟨ht, hmore⟩ := tallied_create options random now hn
  exact ticking_performPing ht hn now hmore rfl

/-- A run keeps what has been counted, and without an interrupt the timer. -/
theorem accounted_run (options : Options) (random : UInt64) (now : Time) {es : List Event} (hn : 1 ≤ options.nPings)
    (hr : machine.Runs (start options random now) es) (hno : .interrupt ∉ es) :
    Accounted options (Ping.create options random).nextSeq (machine.exec (start options random now) es) ∧
      Ticking options (machine.exec (start options random now) es) := by
  have hsteps : machine.Each (fun r e => enabled r e ∧ e ≠ .interrupt) (start options random now) es :=
    (Machine.each_of_runs hr).and_of_mem fun e he heq => hno (heq ▸ he)
  have hall : machine.Always
      (fun r => Accounted options (Ping.create options random).nextSeq r ∧ Ticking options r)
      (start options random now) es :=
    Machine.always_of_inv (fun r e h he hi => ⟨h.1.step hn he, h.2.step h.1 hn he hi.2⟩)
      ⟨accounted_start options random now hn, ticking_start options random now hn⟩ hr hsteps
  exact Machine.always_last _ _ hall

/-! ## What is left to do -/

/-- `finish` changes nothing but the counter, the timer and what it emits. -/
theorem finish_frame (r : Runner) : ∃ n timer finished, r.finish =
    { r with ping := { r.ping with nOutstanding := n, nextPingEvent := timer }, finished := finished } := by
  unfold Runner.finish
  dsimp only
  split
  · exact ⟨_, r.ping.nextPingEvent, r.finished, rfl⟩
  · exact ⟨_, none, _, rfl⟩

/-- The timer sends one Interest. -/
theorem timer_effect (now : Time) (r : Runner) :
    (step r (.timer now)).ping.nSent = r.ping.nSent + 1 ∧
    (step r (.timer now)).face.length = r.face.length + 1 ∧
    (step r (.timer now)).statisticsCollector = r.statisticsCollector ∧
    (step r (.timer now)).nTimeouts = r.nTimeouts := by
  unfold step performPing
  dsimp only
  split
  · simp [expressPing]
  · obtain ⟨_, _, _, heq⟩ := finish_frame (expressPing now { r with ping := { r.ping with nextPingEvent := none } })
    rw [heq]
    simp [expressPing]

/-- A callback answers one Interest. -/
theorem answer_effect {p : Pending} (hp : p ∈ r.face) (c : StatisticsCollector) (nTimeouts : ℤ) :
    (finish { answered p r with statisticsCollector := c, nTimeouts := nTimeouts }).ping.nSent = r.ping.nSent ∧
    (finish { answered p r with statisticsCollector := c, nTimeouts := nTimeouts }).face.length + 1 = r.face.length ∧
    (finish { answered p r with statisticsCollector := c, nTimeouts := nTimeouts }).statisticsCollector = c ∧
    (finish { answered p r with statisticsCollector := c, nTimeouts := nTimeouts }).nTimeouts = nTimeouts := by
  obtain ⟨_, _, _, heq⟩ := finish_frame { answered p r with statisticsCollector := c, nTimeouts := nTimeouts }
  have hpos := List.length_pos_of_mem hp
  rw [heq]
  refine ⟨rfl, ?_, rfl, rfl⟩
  show (r.face.erase p).length + 1 = r.face.length
  rw [List.length_erase_of_mem hp]
  omega

def Event.isAnswer : Event → Bool
  | .timer _ | .interrupt => false
  | .data _ _ | .nack _ | .timeout _ => true

/-- Each answer is counted. -/
theorem nSent_step {e : Event} (he : enabled r e) : (step r e).statisticsCollector.nSent =
    r.statisticsCollector.nSent + if e.isAnswer then 1 else 0 := by
  cases e with
  | timer now =>
    rw [(timer_effect now r).2.2.1]
    simp [Event.isAnswer]
  | data now p => exact congrArg StatisticsCollector.nSent (answer_effect he _ r.nTimeouts).2.2.1
  | nack p => exact congrArg StatisticsCollector.nSent (answer_effect he _ r.nTimeouts).2.2.1
  | timeout p => exact congrArg StatisticsCollector.nSent (answer_effect he _ (r.nTimeouts + 1)).2.2.1
  | interrupt => simp [step, Event.isAnswer]

theorem nSent_exec {es : List Event} (hr : machine.Runs r es) : (machine.exec r es).statisticsCollector.nSent =
    r.statisticsCollector.nSent + es.countP Event.isAnswer := by
  induction es generalizing r with
  | nil => simp
  | cons e es ih =>
    have hstep : (machine.step r e).statisticsCollector.nSent = _ := nSent_step hr.1
    rw [Machine.exec_cons, ih hr.2, hstep, List.countP_cons]
    push_cast
    split <;> omega

/-- The Interests to be sent, each of which is to be answered, and those that are pending. -/
def work (options : Options) (r : Runner) : ℕ := 2 * (options.nPings - r.ping.nSent).toNat + r.face.length

theorem work_step (h : Accounted options first r) {e : Event} (he : enabled r e) (hi : e ≠ .interrupt) :
    work options (step r e) + 1 = work options r := by
  unfold work
  cases e with
  | timer now =>
    obtain ⟨hsent, hface, -⟩ := timer_effect now r
    have hmore := h.timer he
    rw [hsent, hface]
    omega
  | data now p =>
    obtain ⟨hsent, hface, -⟩ := answer_effect he (r.statisticsCollector.recordData (now - p.sendTime)) r.nTimeouts
    change (step r (.data now p)).ping.nSent = _ at hsent
    change (step r (.data now p)).face.length + 1 = _ at hface
    rw [hsent]
    omega
  | nack p =>
    obtain ⟨hsent, hface, -⟩ := answer_effect he r.statisticsCollector.recordNack r.nTimeouts
    change (step r (.nack p)).ping.nSent = _ at hsent
    change (step r (.nack p)).face.length + 1 = _ at hface
    rw [hsent]
    omega
  | timeout p =>
    obtain ⟨hsent, hface, -⟩ := answer_effect he r.statisticsCollector.recordTimeout (r.nTimeouts + 1)
    change (step r (.timeout p)).ping.nSent = _ at hsent
    change (step r (.timeout p)).face.length + 1 = _ at hface
    rw [hsent]
    omega
  | interrupt => exact absurd rfl hi

/-- All answers have come in exactly when the client has finished. -/
theorem Accounted.finished_iff (h : Accounted options first r) :
    Finished options first r ↔ r.statisticsCollector.nSent = options.nPings := by
  have hanswers := h.answers
  have hwithin := h.within
  refine ⟨fun hf => hf.statistics.1, fun hall => ?_⟩
  rcases h.finished with ⟨-, hmore | hne⟩ | hf
  · omega
  · have hpos := List.length_pos_of_ne_nil hne
    omega
  · exact hf

theorem Accounted.finished_of_complete (h : Accounted options first r) (ht : Ticking options r) (hc : Complete r) :
    Finished options first r := by
  rcases h.finished with ⟨-, hmore | hne⟩ | hfinished
  · have hsome := ht hmore
    rw [hc.1] at hsome
    cases hsome
  · exact absurd hc.2 hne
  · exact hfinished

/-- Until then something can happen. -/
theorem finished_or_enabled (h : Accounted options first r) (ht : Ticking options r) :
    Finished options first r ∨ ∃ e, e ≠ .interrupt ∧ enabled r e := by
  by_cases hc : Complete r
  · exact .inl (h.finished_of_complete ht hc)
  · right
    by_cases htimer : r.ping.nextPingEvent = none
    · obtain ⟨p, rest, hface⟩ := List.exists_cons_of_ne_nil fun hnil => hc ⟨htimer, hnil⟩
      refine ⟨.timeout p, by simp, ?_⟩
      show p ∈ r.face
      rw [hface]
      exact List.mem_cons_self
    · exact ⟨.timer 0, by simp, Option.isSome_iff_ne_none.2 htimer⟩

/-- And it does not happen for ever. -/
theorem exists_finish (hn : 1 ≤ options.nPings) (h : Accounted options first r) (ht : Ticking options r) :
    ∃ more, .interrupt ∉ more ∧ machine.Runs r more ∧ Finished options first (machine.exec r more) := by
  induction hwork : work options r using Nat.strong_induction_on generalizing r with
  | _ n ih =>
    rcases finished_or_enabled h ht with hf | ⟨e, hi, he⟩
    · exact ⟨[], List.not_mem_nil, trivial, hf⟩
    · have hless := work_step h he hi
      obtain ⟨more, hno, hr, hf⟩ := ih _ (by omega) (h.step hn he) (ht.step h hn he hi) rfl
      refine ⟨e :: more, fun hmem => ?_, ⟨he, hr⟩, hf⟩
      exact (List.mem_cons.1 hmem).elim (fun heq => hi heq.symm) hno

/-- The events of a run without an interrupt are so many. -/
theorem length_add_work (hn : 1 ≤ options.nPings) {es : List Event} (h : Accounted options first r)
    (hr : machine.Runs r es) (hno : .interrupt ∉ es) :
    es.length + work options (machine.exec r es) = work options r := by
  induction es generalizing r with
  | nil => simp
  | cons e es ih =>
    have hi : e ≠ .interrupt := fun heq => hno (heq ▸ List.mem_cons_self)
    have hless := work_step h hr.1 hi
    have hrest := ih (h.step hn hr.1) hr.2 fun hmem => hno (List.mem_cons_of_mem e hmem)
    change es.length + work options (machine.exec (step r e) es) = _ at hrest
    rw [Machine.exec_cons, List.length_cons]
    change es.length + 1 + work options (machine.exec (step r e) es) = _
    omega

theorem work_start (options : Options) (random : UInt64) (now : Time) (hn : 1 ≤ options.nPings) :
    work options (start options random now) + 1 = 2 * options.nPings.toNat := by
  have hstart : start options random now = step (create options random now) (.timer now) := rfl
  obtain ⟨hsent, hface, -⟩ := timer_effect now (create options random now)
  rw [hstart, work, hsent, hface]
  show 2 * (options.nPings - (0 + 1)).toNat + (0 + 1) + 1 = _
  omega

theorem nSent_start (options : Options) (random : UInt64) (now : Time) :
    (start options random now).statisticsCollector.nSent = 0 :=
  congrArg StatisticsCollector.nSent (timer_effect now (create options random now)).2.2.1

/-- `afterFinish` is emitted once at most, when all Interests have been sent and answered; and it has been emitted
exactly when `nPings` answers have come. Without an interrupt a run has less than `2 * nPings` events, can go on to
where `afterFinish` has been emitted, and does not end before. -/
theorem finishes_once (options : Options) (random : UInt64) (now : Time) (es : List Event) (hn : 1 ≤ options.nPings)
    (hr : machine.Runs (start options random now) es) :
    machine.Always (fun r => r.finished = [] ∨ Finished options (Ping.create options random).nextSeq r)
      (start options random now) es ∧
    (Finished options (Ping.create options random).nextSeq (machine.exec (start options random now) es) ↔
      es.countP Event.isAnswer = options.nPings) ∧
    (.interrupt ∉ es → es.length < 2 * options.nPings.toNat ∧
      (Complete (machine.exec (start options random now) es) →
        Finished options (Ping.create options random).nextSeq (machine.exec (start options random now) es)) ∧
      ∃ more, .interrupt ∉ more ∧ machine.Runs (start options random now) (es ++ more) ∧
        Finished options (Ping.create options random).nextSeq
          (machine.exec (start options random now) (es ++ more))) := by
  have hinv : machine.Always (Accounted options (Ping.create options random).nextSeq) (start options random now) es :=
    Machine.always_of_step (fun r e h he => h.step hn he) (accounted_start options random now hn) hr
  refine ⟨hinv.imp fun r h => h.finished.imp And.left id, ?_, fun hno => ?_⟩
  · have hcounted := nSent_exec hr
    rw [nSent_start, zero_add] at hcounted
    rw [(Machine.always_last _ _ hinv).finished_iff, hcounted]
  · obtain ⟨haccounted, hticking⟩ := accounted_run options random now hn hr hno
    have hlength := length_add_work hn (accounted_start options random now hn) hr hno
    have hstart := work_start options random now hn
    obtain ⟨more, hno', hr', hfinished⟩ := exists_finish hn haccounted hticking
    refine ⟨by omega, haccounted.finished_of_complete hticking, more, hno', (machine.runs_append _ _ _).2 ⟨hr, hr'⟩, ?_⟩
    rw [Machine.exec_append]
    exact hfinished

/-- Two pings; the answers come after the last send. -/
def twoPings : Options := ⟨[], false, false, 2, 1000, 4000, 18446744073709551615, []⟩

def twoAnswers : List Event :=
  [.timer 1000, .nack ⟨⟨(["ping", "0"] : List Component), true, 4000⟩, 0, 1000⟩,
    .data 1500 ⟨⟨(["ping", "18446744073709551615"] : List Component), true, 4000⟩, 18446744073709551615, 0⟩]

/-- The client ends with one Nack and one packet. -/
theorem finishes_once_two :
    machine.Always (fun r => r.finished = [] ∨ Finished twoPings 18446744073709551615 r) (start twoPings 0 0)
      twoAnswers ∧
    Finished twoPings 18446744073709551615 (machine.exec (start twoPings 0 0) twoAnswers) := by
  obtain ⟨halways, hfinished, -⟩ := finishes_once twoPings 0 0 twoAnswers (by decide) (by decide +kernel)
  exact ⟨halways, hfinished.2 (by decide)⟩

/-- The assertion of `performPing` holds whenever the timer expires, and `m_nOutstanding` stays between -1
and `nPings`. -/
theorem asserts_and_bounds (options : Options) (random : UInt64) (now : Time) (es : List Event)
    (hn : 1 ≤ options.nPings) (hr : machine.Runs (start options random now) es) :
    machine.Always (fun r => (r.ping.nextPingEvent.isSome = true → MorePings r.ping) ∧
      -1 ≤ r.ping.nOutstanding ∧ r.ping.nOutstanding ≤ options.nPings) (start options random now) es := by
  have hinv : machine.Always (Accounted options (Ping.create options random).nextSeq) (start options random now) es :=
    Machine.always_of_step (fun r e h he => h.step hn he) (accounted_start options random now hn) hr
  refine hinv.imp fun r h => ⟨fun hsome => (h.morePings_iff hn).2 (h.timer hsome), ?_⟩
  have hout := h.outstanding
  have hanswers := h.answers
  have hwithin := h.within
  have hcounted := h.counted
  constructor
  · split at hout <;> omega
  · split at hout <;> omega

end Runner

end NdnTools.Ndnping
