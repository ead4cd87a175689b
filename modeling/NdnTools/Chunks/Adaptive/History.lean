/-
The calls of `sendInterest` that get past its guards, in the order of a run: a segment's first Interest
is expressed, a segment is retransmitted, or its retries are used up and `handleFail` is called. The
Interests that the Face is asked to express are the first two kinds (`nextId_body`).

`log_rule` carries an invariant of the pipeline and the history through `schedulePackets`, and
`closed_rule` one through the rest of a step, where nothing is sent: with a window that is closed a
step ends where `schedulePackets` is called.
-/
import NdnTools.Chunks.Adaptive.Keyed
import NdnTools.Chunks.Adaptive.Response

namespace NdnTools.Chunks.Adaptive

variable {κ : Type}

inductive Attempt.Kind
  | first
  | retransmission
  | exhausted
  deriving Repr, DecidableEq

structure Attempt where
  now : Time
  segNo : ℕ
  kind : Attempt.Kind
  deriving Repr, DecidableEq

namespace Attempt

/-- An Interest is expressed. -/
def isSent (a : Attempt) : Bool := a.kind != .exhausted

/-- `sendInterest` is called with a retransmission. -/
def isRetry (a : Attempt) : Bool := a.kind != .first

end Attempt

/-- An iteration of `schedulePackets` puts the segment up for retransmission. -/
def Retries (segNo : ℕ) (s : Adaptive κ) : Prop :=
  s.isStopping = false ∧ s.retxQueue.head? = some segNo ∧ segNo ∈ s.segmentInfo

instance (segNo : ℕ) (s : Adaptive κ) : Decidable (Retries segNo s) := inferInstanceAs (Decidable (_ ∧ _))

/-- An iteration of `schedulePackets` requests the next segment. -/
def Requests (s : Adaptive κ) : Prop :=
  s.isStopping = false ∧ s.retxQueue = [] ∧ ¬ s.beyond (nextNo s) ∧ s.hasFailure = false

instance (s : Adaptive κ) : Decidable (Requests s) := inferInstanceAs (Decidable (_ ∧ _))

/-- What the iteration of `schedulePackets` that starts in `s` does. -/
def attempt (sch : Scheme κ) (now : Time) (s : Adaptive κ) : List Attempt :=
  match s.retxQueue with
  | n :: _ =>
    if Retries n s then [⟨now, n, if Exhausted sch n s then .exhausted else .retransmission⟩] else []
  | [] => if Requests s then [⟨now, nextNo s, .first⟩] else []

/-- What `schedulePackets` does. -/
def attempts (sch : Scheme κ) (now : Time) (s : Adaptive κ) : List Attempt :=
  (scheduleLoop sch now).log (fun x => attempt sch now x.2) (scheduleFuel sch s) (availableWindowSize sch s, s)

/-- What an event makes the pipeline do. -/
def attemptsOf (sch : Scheme κ) (s : Adaptive κ) (e : Event) : List Attempt :=
  match handle sch s e with
  | .done _ => []
  | .schedulePackets t => attempts sch e.now t

/-- What the pipeline did from its start on. -/
def history (sch : Scheme κ) (now : Time) (control : κ) (data : Data) (es : List Event) : List Attempt :=
  attempt sch now (start control data) ++ (machine sch).log (attemptsOf sch) (run sch now control data) es

variable {sch : Scheme κ} {now : Time} {s : Adaptive κ} {n avail : ℕ}

/-! ## The iterations -/

/-- An iteration does nothing, or retransmits, or finds the retries used up, or requests the next
segment. -/
theorem body_cases (sch : Scheme κ) (now : Time) (avail : ℤ) (s : Adaptive κ) :
    (∃ n queue, s.retxQueue = n :: queue ∧ n ∉ s.segmentInfo ∧ attempt sch now s = [] ∧
      (scheduleLoop sch now).body (avail, s) = (avail, popRetx queue s)) ∨
    (∃ n queue, s.retxQueue = n :: queue ∧ n ∈ s.segmentInfo ∧ s.isStopping = true ∧ attempt sch now s = [] ∧
      (scheduleLoop sch now).body (avail, s) = (avail - 1, popRetx queue s)) ∨
    (∃ n queue, s.retxQueue = n :: queue ∧ n ∈ s.segmentInfo ∧ s.isStopping = false ∧ ¬ Exhausted sch n s ∧
      attempt sch now s = [⟨now, n, .retransmission⟩] ∧
      (scheduleLoop sch now).body (avail, s) = (avail - 1, resend sch now n (countRetx n (popRetx queue s)))) ∨
    (∃ n queue, s.retxQueue = n :: queue ∧ n ∈ s.segmentInfo ∧ s.isStopping = false ∧ Exhausted sch n s ∧
      attempt sch now s = [⟨now, n, .exhausted⟩] ∧
      (scheduleLoop sch now).body (avail, s) =
        (avail - 1, handleFail n (tooManyRetries sch n) (countRetx n (popRetx queue s)))) ∨
    (s.retxQueue = [] ∧ (s.isStopping = true ∨ s.beyond (nextNo s) ∨ s.hasFailure = true) ∧
      attempt sch now s = [] ∧ (scheduleLoop sch now).body (avail, s) = (avail - 1, advance s)) ∨
    (s.retxQueue = [] ∧ s.isStopping = false ∧ ¬ s.beyond (nextNo s) ∧ s.hasFailure = false ∧
      attempt sch now s = [⟨now, nextNo s, .first⟩] ∧
      (scheduleLoop sch now).body (avail, s) = (avail - 1, sendFirst sch now (nextNo s) (advance s))) := by
  cases hq : s.retxQueue with
  | nil =>
    right; right; right; right
    simp only [attempt, scheduleLoop, hq, Requests]
    rcases sendNext_cases sch now s with ⟨hc, heq⟩ | ⟨h1, h2, h3, heq⟩
    · refine .inl ⟨trivial, hc, ?_, by rw [heq]⟩
      refine if_neg ?_
      rintro ⟨h1, -, h2, h3⟩
      rcases hc with hc | hc | hc
      · exact absurd_of_going h1 hc
      · exact h2 hc
      · rw [h3] at hc; cases hc
    · exact .inr ⟨trivial, h1, h2, h3, if_pos ⟨h1, trivial, h2, h3⟩, by rw [heq]⟩
  | cons n queue =>
    simp only [attempt, scheduleLoop, hq, Retries, List.head?_cons]
    by_cases hn : n ∈ s.segmentInfo
    · right
      cases hgo : s.isStopping with
      | true =>
        refine .inl ⟨n, queue, rfl, hn, rfl, if_neg (by simp), ?_⟩
        rw [if_pos hn]
        have hst : (popRetx queue s).isStopping = true := hgo
        unfold sendInterest
        exact congrArg _ (if_pos hst)
      | false =>
        right
        rw [if_pos ⟨rfl, trivial, hn⟩, if_pos hn]
        rcases sendInterest_retransmission (s := popRetx queue s) sch now n hgo with ⟨hex, heq⟩ | ⟨hex, heq⟩
        · have hex' : Exhausted sch n s := hex
          refine .inr (.inl ⟨n, queue, rfl, hn, rfl, hex', by rw [if_pos hex'], ?_⟩)
          exact congrArg _ heq
        · have hex' : ¬ Exhausted sch n s := hex
          refine .inl ⟨n, queue, rfl, hn, rfl, hex', by rw [if_neg hex'], ?_⟩
          exact congrArg _ heq
    · exact .inl ⟨n, queue, rfl, hn, if_neg fun h => hn h.2.2, by rw [if_neg hn]; rfl⟩

theorem nextId_handleFail (n : ℕ) (reason : String) (s : Adaptive κ) :
    (handleFail n reason s).face.nextId = s.face.nextId := by
  obtain ⟨_, _, _, _, _, _, _, _, _, heq, hid, -⟩ := handleFail_frame n reason s
  rw [heq]
  exact hid

/-- The Face is asked to express the Interests that are noted as sent, and no others. -/
theorem nextId_body (sch : Scheme κ) (now : Time) (x : ℤ × Adaptive κ) :
    ((scheduleLoop sch now).body x).2.face.nextId =
      x.2.face.nextId + ((attempt sch now x.2).countP Attempt.isSent) := by
  obtain ⟨avail, s⟩ := x
  rcases body_cases sch now avail s with ⟨n, queue, -, -, ha, hb⟩ | ⟨n, queue, -, -, -, ha, hb⟩ |
      ⟨n, queue, -, -, -, -, ha, hb⟩ | ⟨n, queue, -, -, -, -, ha, hb⟩ | ⟨-, -, ha, hb⟩ | ⟨-, -, -, -, ha, hb⟩
  · rw [ha, hb]; rfl
  · rw [ha, hb]; rfl
  · rw [ha, hb]; rfl
  · rw [ha, hb]
    exact nextId_handleFail n _ (countRetx n (popRetx queue s))
  · rw [ha, hb]; rfl
  · rw [ha, hb]; rfl

/-! ## Rules -/

/-- What to prove of an invariant of the pipeline and its history to carry it through
`schedulePackets`. -/
structure LogPreserves (sch : Scheme κ) (I : Adaptive κ → List Attempt → Prop) : Prop where
  pop : ∀ {s h n queue}, I s h → s.retxQueue = n :: queue → n ∉ s.segmentInfo ∨ s.isStopping = true →
    I (popRetx queue s) h
  resend : ∀ {s h n queue} (now : Time), I s h → s.retxQueue = n :: queue → n ∈ s.segmentInfo →
    s.isStopping = false → ¬ Exhausted sch n s →
    I (resend sch now n (countRetx n (popRetx queue s))) (h ++ [⟨now, n, .retransmission⟩])
  fail : ∀ {s h n queue} (now : Time) (reason : String), I s h → s.retxQueue = n :: queue → n ∈ s.segmentInfo →
    s.isStopping = false → Exhausted sch n s →
    I (handleFail n reason (countRetx n (popRetx queue s))) (h ++ [⟨now, n, .exhausted⟩])
  skip : ∀ {s h}, I s h → s.retxQueue = [] → s.isStopping = true ∨ s.beyond (nextNo s) ∨ s.hasFailure = true →
    I (advance s) h
  first : ∀ {s h} (now : Time), I s h → s.retxQueue = [] → s.isStopping = false → ¬ s.beyond (nextNo s) →
    s.hasFailure = false → I (sendFirst sch now (nextNo s) (advance s)) (h ++ [⟨now, nextNo s, .first⟩])

variable {I : Adaptive κ → List Attempt → Prop}

theorem LogPreserves.body (h : LogPreserves sch I) (x : ℤ × Adaptive κ) {hist : List Attempt} (hs : I x.2 hist) :
    I ((scheduleLoop sch now).body x).2 (hist ++ attempt sch now x.2) := by
  obtain ⟨avail, s⟩ := x
  rcases body_cases sch now avail s with ⟨n, queue, hq, hn, ha, hb⟩ | ⟨n, queue, hq, hn, hst, ha, hb⟩ |
      ⟨n, queue, hq, hn, hgo, hex, ha, hb⟩ | ⟨n, queue, hq, hn, hgo, hex, ha, hb⟩ | ⟨hq, hc, ha, hb⟩ |
      ⟨hq, hgo, hbey, hf, ha, hb⟩
  · rw [ha, hb, List.append_nil]; exact h.pop hs hq (.inl hn)
  · rw [ha, hb, List.append_nil]; exact h.pop hs hq (.inr hst)
  · rw [ha, hb]; exact h.resend now hs hq hn hgo hex
  · rw [ha, hb]; exact h.fail now _ hs hq hn hgo hex
  · rw [ha, hb, List.append_nil]; exact h.skip hs hq hc
  · rw [ha, hb]; exact h.first now hs hq hgo hbey hf

/-- `run` does what an iteration would do. -/
theorem LogPreserves.run (h : LogPreserves sch I) (now : Time) {control : κ} {data : Data}
    (hs : I (start control data) []) :
    I (run sch now control data) (attempt sch now (start control data)) :=
  h.body (0, start control data) hs

theorem LogPreserves.schedulePackets (h : LogPreserves sch I) {hist : List Attempt} (hs : I s hist) :
    I (schedulePackets sch now s) (hist ++ attempts sch now s) :=
  Loop.run_log_inv (l := scheduleLoop sch now) (I := fun x hist => I x.2 hist) (fun x _ _ hx => h.body x hx) hs

theorem LogPreserves.step (h : LogPreserves sch I) {hist : List Attempt} {e : Event}
    (hs : I (handle sch s e).state hist) : I (step sch s e) (hist ++ attemptsOf sch s e) := by
  rw [step_eq]
  unfold attemptsOf
  cases hh : handle sch s e with
  | done t =>
    rw [hh] at hs
    rw [List.append_nil]
    exact hs
  | schedulePackets t =>
    rw [hh] at hs
    exact h.schedulePackets hs

/-- The pipeline with its window closed. -/
def closed (sch : Scheme κ) : Scheme κ := { sch with cwnd := fun _ => 0 }

theorem schedulePackets_closed (sch : Scheme κ) (now : Time) (s : Adaptive κ) :
    schedulePackets (closed sch) now s = s := by
  have havail : ¬ 0 < availableWindowSize (closed sch) s := by
    have hle : (0 : ℤ) - s.nInFlight ≤ 0 := by omega
    exact not_lt.2 hle
  unfold schedulePackets
  cases scheduleFuel (closed sch) s with
  | zero => rfl
  | succ k =>
    rw [Loop.run_succ, if_neg]
    simpa [scheduleLoop] using havail

/-- With a closed window a step ends where its handler returns. -/
theorem step_closed (sch : Scheme κ) (s : Adaptive κ) (e : Event) : step (closed sch) s e = (handle sch s e).state := by
  have hsame : handle (closed sch) s e = handle sch s e := by cases e <;> rfl
  rw [step_eq, hsame]
  cases handle sch s e with
  | done t => rfl
  | schedulePackets t => exact schedulePackets_closed sch e.now t

/-- What the handlers of the events preserve. -/
theorem closed_rule {I : Adaptive κ → Prop} {R Q : ℕ → Adaptive κ → Prop} (h : Preserves (closed sch) {} I I R Q)
    {e : Event} (hs : I s) (he : enabled s e) : I (handle sch s e).state := by
  rw [← step_closed]
  exact h.step hs he (meets_any s e)

/-! ## What only `schedulePackets` changes -/

/-- The next number and the counts of the retransmissions are the same. -/
structure SameSending (s t : Adaptive κ) : Prop where
  nextSegmentNo : t.nextSegmentNo = s.nextSegmentNo
  retxCount : t.retxCount = s.retxCount

theorem SameSending.trans {s t r : Adaptive κ} (h : SameSending s t) (h' : SameSending t r) : SameSending s r :=
  ⟨h'.nextSegmentNo.trans h.nextSegmentNo, h'.retxCount.trans h.retxCount⟩

theorem sameSending_cancel (s : Adaptive κ) : SameSending s (cancel s) := by
  unfold cancel
  split <;> exact ⟨rfl, rfl⟩

theorem sameSending_succeed (s : Adaptive κ) : SameSending s (succeed s) :=
  (sameSending_cancel s).trans ⟨rfl, rfl⟩

theorem sameSending_onFailure (reason : String) (s : Adaptive κ) : SameSending s (onFailure reason s) := by
  obtain ⟨_, _, _, _, heq, -⟩ := onFailure_frame reason s
  rw [heq]
  exact ⟨rfl, rfl⟩

theorem sameSending_handleFail (n : ℕ) (reason : String) (s : Adaptive κ) : SameSending s (handleFail n reason s) := by
  obtain ⟨_, _, _, _, _, _, _, _, _, heq, -⟩ := handleFail_frame n reason s
  rw [heq]
  exact ⟨rfl, rfl⟩

theorem sameSending_lost (now : Time) (k : ℕ) (s : Adaptive κ) : SameSending s (lost sch now k s) := by
  obtain ⟨_, _, _, heq⟩ := lost_frame sch now k s
  rw [heq]
  exact ⟨rfl, rfl⟩

theorem sameSending_requeueAll (ns : List ℕ) (s : Adaptive κ) : SameSending s (requeueAll ns s) := by
  obtain ⟨_, heq⟩ := requeueAll_frame ns s
  rw [heq]
  exact ⟨rfl, rfl⟩

theorem sameSending_accept (now : Time) (d : Data) (s : Adaptive κ) :
    SameSending s (accept sch now d (touch d.segmentNo s)) := by
  obtain ⟨_, _, heq⟩ := accept_frame sch now d (touch d.segmentNo s)
  rw [heq]
  exact ⟨rfl, rfl⟩

/-- The handlers leave both alone. -/
theorem sameSending_handle {e : Event} (he : enabled s e) : SameSending s (handle sch s e).state := by
  have hp : Preserves (closed sch) {} (SameSending s) (SameSending s)
      (fun _ t => t.isStopping = false ∧ SameSending s t) (fun _ t => t.isStopping = false ∧ SameSending s t) :=
    { going := fun h => h.1
      idle := fun h => h.2
      stopped := fun _ h _ => h.trans ⟨rfl, rfl⟩
      cancel := fun h _ => h.trans (sameSending_cancel _)
      answered := fun h hgo _ => ⟨hgo, h.trans ⟨rfl, rfl⟩⟩
      requeue := fun {t n} now h _ => by
        have hq : SameSending t (requeue n t) := ⟨rfl, rfl⟩
        exact (h.2.trans hq).trans (sameSending_lost now 1 (requeue n t))
      expired := fun now h _ _ _ _ => (h.trans (sameSending_requeueAll _ _)).trans (sameSending_lost now _ _)
      fail := fun reason h _ => h.2.trans (sameSending_handleFail _ reason _)
      learnStop := fun {t _ last} h _ _ _ => by
        have hl : SameSending t (learnLast last t) := ⟨rfl, rfl⟩
        exact (h.2.trans hl).trans (sameSending_onFailure _ (learnLast last t))
      plain := fun h => h
      learn := fun h _ _ _ => ⟨h.1, h.2.trans ⟨rfl, rfl⟩⟩
      ignored := fun h _ _ => h.2.trans ⟨rfl, rfl⟩
      duplicate := fun h _ _ => h.2.trans ⟨rfl, rfl⟩
      complete := fun {_ d} now h _ _ _ _ => (h.2.trans (sameSending_accept now d _)).trans (sameSending_succeed _)
      accept := fun {_ d} now h _ _ _ _ => h.2.trans (sameSending_accept now d _)
      schedule := fun now h _ => by
        rw [schedulePackets_closed]
        exact h }
  exact closed_rule hp ⟨rfl, rfl⟩ he

end NdnTools.Chunks.Adaptive
