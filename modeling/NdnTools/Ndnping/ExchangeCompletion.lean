/-
A client that is not interrupted can always finish without further loss, whatever has been lost so far, as long as
the Face hands Interests to the server: the timer expires until all Interests have been sent, and each pending one
is answered.
-/
import NdnTools.Ndnping.Exchange

namespace NdnTools.Ndnping

namespace Exchange

variable {ι : Type} [DecidableEq ι] {options : Options} {first : UInt64} {server : ServerOptions} {i : ι}
  {x x' : Exchange ι}

/-- What happens to client `i`. -/
def clientEvents (i : ι) : Event ι → List Runner.Event
  | .client j e => if j = i then [e] else []
  | .server _ => []

/-- A run of the exchange is a run of each client. -/
theorem client_run (i : ι) {es : List (Event ι)} (hr : machine.Runs x es) :
    Runner.machine.Runs (x.clients i) (machine.log (fun _ => clientEvents i) x es) ∧
      Runner.machine.exec (x.clients i) (machine.log (fun _ => clientEvents i) x es) =
        (machine.exec x es).clients i := by
  refine Machine.simulates (m := machine) (fun x : Exchange ι => x.clients i) (I := fun _ => True)
    (fun _ _ _ _ => trivial) (fun x e _ he => ?_) trivial hr
  cases e with
  | client j e =>
    by_cases hj : j = i
    · subst hj
      simp only [clientEvents, if_true, Machine.runs_cons, Machine.runs_nil, and_true, Machine.exec_cons,
        Machine.exec_nil]
      refine ⟨he.1, ?_⟩
      show _ = Function.update x.clients j _ j
      rw [Function.update_self]
      rfl
    · simp only [clientEvents, if_neg hj, Machine.runs_nil, Machine.exec_nil, true_and]
      exact (Function.update_of_ne (Ne.symm hj) ..).symm
  | server e => exact ⟨trivial, rfl⟩

/-- The client has not been interrupted, and the server takes Interests. -/
structure Going (options : Options) (first : UInt64) (server : ServerOptions) (i : ι) (x : Exchange ι) : Prop where
  accounted : (x.clients i).Accounted options first
  ticking : (x.clients i).Ticking options
  received : ∃ l, (x.clients i).Received options first l
  served : ∃ names, x.server.Served server names
  set : x.server.filter = .set

/-- From `x` to `x'` client `i` has lost nothing, and the other clients have done nothing. -/
structure Lossless (i : ι) (x x' : Exchange ι) : Prop where
  nNacked : (x'.clients i).statisticsCollector.nNacked = (x.clients i).statisticsCollector.nNacked
  nTimeouts : (x'.clients i).nTimeouts = (x.clients i).nTimeouts
  others : ∀ j ≠ i, x'.clients j = x.clients j

omit [DecidableEq ι] in
theorem Lossless.trans {x'' : Exchange ι} (h : Lossless i x x') (h' : Lossless i x' x'') : Lossless i x x'' :=
  ⟨h'.nNacked.trans h.nNacked, h'.nTimeouts.trans h.nTimeouts, fun j hj => (h'.others j hj).trans (h.others j hj)⟩

theorem Going.timer (h : Going options first server i x) (hn : 1 ≤ options.nPings)
    (hmore : (x.clients i).ping.nSent < options.nPings) (now : Time) :
    enabled x (.client i (.timer now)) ∧ Going options first server i (step x (.client i (.timer now))) ∧
    Lossless i x (step x (.client i (.timer now))) ∧
    ((step x (.client i (.timer now))).clients i).work options < (x.clients i).work options := by
  have he : (x.clients i).enabled (.timer now) := h.ticking hmore
  obtain ⟨l, hl⟩ := h.received
  obtain ⟨-, -, hstat, htimeouts⟩ := Runner.timer_effect now (x.clients i)
  have hclient : (step x (.client i (.timer now))).clients i = (x.clients i).step (.timer now) :=
    Function.update_self ..
  refine ⟨⟨he, trivial⟩, ⟨?_, ?_, ?_, h.served, h.set⟩, ⟨?_, ?_, fun j hj => ?_⟩, ?_⟩
  · rw [hclient]
    exact h.accounted.step hn he
  · rw [hclient]
    exact h.ticking.step h.accounted hn he (by simp)
  · rw [hclient]
    exact ⟨_, hl.step he⟩
  · rw [hclient, hstat]
  · rw [hclient, htimeouts]
  · exact Function.update_of_ne hj ..
  · have hwork := Runner.work_step h.accounted he (by simp)
    rw [hclient]
    omega

/-- The server answers a pending Interest, and the answer arrives. -/
def answering (i : ι) (p : Pending) (now : Time) : List (Event ι) :=
  [.server (.interest p.interest.name), .client i (.data now p)]

theorem Going.answer (h : Going options first server i x) (hn : 1 ≤ options.nPings)
    (hserves : options.pingPrefix = server.registered) {p : Pending} (hp : p ∈ (x.clients i).face) (now : Time) :
    machine.Runs x (answering i p now) ∧ Going options first server i (machine.exec x (answering i p now)) ∧
    Lossless i x (machine.exec x (answering i p now)) ∧
    ((machine.exec x (answering i p now)).clients i).work options < (x.clients i).work options := by
  obtain ⟨l, hl⟩ := h.received
  obtain ⟨names, hserved⟩ := h.served
  have hunder : x.server.name <+: p.interest.name := by
    have hmem := List.mem_map_of_mem (f := fun p : Pending => p.interest.name)
      (hl.apart.subset (List.mem_append_right _ hp))
    rw [hl.names] at hmem
    obtain ⟨seq, -, heq⟩ := List.mem_map.1 hmem
    rw [hserved.name, ← heq, ← hserves, Options.pingName, Ping.makePingName, List.append_assoc]
    exact List.prefix_append _ _
  have hinterest : x.server.enabled (.interest p.interest.name) :=
    ⟨hserved.running (by rw [h.set]; decide), h.set, hunder⟩
  obtain ⟨hput, hfilter, -⟩ := PingServer.onInterest_effect p.interest.name x.server
  have hdelivered : Delivered (x.server.onInterest p.interest.name).put (.data now p) := by
    rw [hput]
    exact ⟨x.server.answer p.interest.name, List.mem_append_right _ (List.mem_singleton_self _), List.prefix_refl _⟩
  have he : (x.clients i).enabled (.data now p) := hp
  obtain ⟨-, -, hcollector, htimeouts⟩ :=
    Runner.answer_effect hp ((x.clients i).statisticsCollector.recordData (now - p.sendTime)) (x.clients i).nTimeouts
  have hclient : (machine.exec x (answering i p now)).clients i = (x.clients i).step (.data now p) :=
    Function.update_self ..
  refine ⟨⟨hinterest, ⟨he, hdelivered⟩, trivial⟩,
    ⟨?_, ?_, ?_, ⟨_, hserved.step hinterest⟩, hfilter.trans h.set⟩,
    ⟨?_, ?_, fun j hj => ?_⟩, ?_⟩
  · rw [hclient]
    exact h.accounted.step hn he
  · rw [hclient]
    exact h.ticking.step h.accounted hn he (by simp)
  · rw [hclient]
    exact ⟨_, hl.step he⟩
  · have hnacked := congrArg StatisticsCollector.nNacked hcollector
    rw [hclient]
    exact hnacked
  · rw [hclient]
    exact htimeouts
  · exact Function.update_of_ne hj ..
  · have hwork := Runner.work_step h.accounted he (by simp)
    rw [hclient]
    omega

/-- Going on without loss ends with all Interests sent and answered. -/
theorem Going.finishes (hn : 1 ≤ options.nPings) (hserves : options.pingPrefix = server.registered) (now : Time)
    (h : Going options first server i x) :
    ∃ es, machine.Runs x es ∧ Runner.Finished options first ((machine.exec x es).clients i) ∧
      Lossless i x (machine.exec x es) := by
  induction hwork : (x.clients i).work options using Nat.strong_induction_on generalizing x with
  | _ n ih =>
    subst hwork
    by_cases hmore : (x.clients i).ping.nSent < options.nPings
    · obtain ⟨he, hgoing, hlossless, hless⟩ := h.timer hn hmore now
      obtain ⟨es, hr, hfinished, hlossless'⟩ := ih _ hless hgoing rfl
      exact ⟨.client i (.timer now) :: es, ⟨he, hr⟩, hfinished, hlossless.trans hlossless'⟩
    · rcases hface : (x.clients i).face with _ | ⟨p, rest⟩
      · refine ⟨[], trivial, ?_, ⟨rfl, rfl, fun _ _ => rfl⟩⟩
        rcases h.accounted.finished with ⟨-, hmore' | hne⟩ | hfinished
        · exact absurd hmore' hmore
        · exact absurd hface hne
        · exact hfinished
      · have hp : p ∈ (x.clients i).face := hface ▸ List.mem_cons_self
        obtain ⟨hr, hgoing, hlossless, hless⟩ := h.answer hn hserves hp now
        obtain ⟨es, hr', hfinished, hlossless'⟩ := ih _ hless hgoing rfl
        refine ⟨answering i p now ++ es, (machine.runs_append _ _ _).2 ⟨hr, hr'⟩, ?_, ?_⟩
        · rw [Machine.exec_append]
          exact hfinished
        · rw [Machine.exec_append]
          exact hlossless.trans hlossless'

end Exchange

/-! ## What the exchange comes to -/

/-- What `Runner::run` returns when no exception was thrown. -/
def Runner.exitCode (r : Runner) : ℕ := if r.statisticsCollector.nReceived = r.statisticsCollector.nSent then 0 else 1

namespace Exchange

variable {ι : Type} [DecidableEq ι] (options : ι → Options) (random : ι → UInt64) (now : ι → Time)
  (server : ServerOptions) (es : List (Event ι))

/-- A client that was not interrupted, in an exchange. -/
theorem client_accounted (hr : machine.Runs (start options random now server) es) {i : ι}
    (hn : 1 ≤ (options i).nPings) (hno : .client i .interrupt ∉ es) :
    Runner.Accounted (options i) (Ping.create (options i) (random i)).nextSeq
      ((machine.exec (start options random now server) es).clients i) ∧
    Runner.Ticking (options i) ((machine.exec (start options random now server) es).clients i) := by
  obtain ⟨hruns, hexec⟩ := client_run i hr
  rw [← hexec]
  refine Runner.accounted_run (options i) (random i) (now i) hn hruns fun hlog => ?_
  obtain ⟨_, e, he, hmem⟩ := Machine.of_mem_log hlog
  cases e with
  | client j e =>
    rw [clientEvents] at hmem
    split at hmem
    · rename_i hj
      subst hj
      cases List.mem_singleton.1 hmem
      exact hno he
    · cases hmem
  | server e => cases hmem

/-- Whatever has happened to a client that was not interrupted, it can finish without further loss, while the
others do nothing, as long as the Face hands Interests to the server. -/
theorem finishable (hr : machine.Runs (start options random now server) es) (i : ι) (hn : 1 ≤ (options i).nPings)
    (hserves : (options i).pingPrefix = server.registered) (hno : .client i .interrupt ∉ es)
    (hset : (machine.exec (start options random now server) es).server.filter = .set) :
    ∃ es', machine.Runs (machine.exec (start options random now server) es) es' ∧
      Runner.Finished (options i) (Ping.create (options i) (random i)).nextSeq
        ((machine.exec (machine.exec (start options random now server) es) es').clients i) ∧
      Lossless i (machine.exec (start options random now server) es)
        (machine.exec (machine.exec (start options random now server) es) es') := by
  obtain ⟨haccounted, hticking⟩ := client_accounted options random now server es hr hn hno
  obtain ⟨l, h⟩ := answered_run options random now server hr
  exact Going.finishes hn hserves 0 ⟨haccounted, hticking, ⟨_, h.clients i⟩, h.served, hset⟩

/-- Two pings; the first was answered with a Nack. -/
def nackedPing : Options := ⟨[], false, false, 2, 1000, 4000, 7, []⟩

def nacked : List (Event Unit) :=
  [.client () (.nack ⟨⟨(["ping", "7"] : List Component), true, 4000⟩, 7, 0⟩), .server .registered]

theorem finishable_nacked :
    ∃ es', machine.Runs (machine.exec (started fun _ => nackedPing) nacked) es' ∧
      Runner.Finished nackedPing 7
        ((machine.exec (machine.exec (started fun _ => nackedPing) nacked) es').clients ()) ∧
      Lossless () (machine.exec (started fun _ => nackedPing) nacked)
        (machine.exec (machine.exec (started fun _ => nackedPing) nacked) es') :=
  finishable (fun _ => nackedPing) (fun _ => 0) (fun _ => 0) ⟨[], 1000, false, 0, 0⟩ nacked (by decide +kernel) ()
    (by decide) rfl (by decide) (by decide +kernel)

/-- Where `ndnping` has run to its end and returned 0, the server has answered all of its pings. -/
theorem processed_of_success (hr : machine.Runs (start options random now server) es) (clients : Finset ι)
    (hapart : ∀ i ∈ clients, ∀ j ∈ clients, i ≠ j → (options i).Apart (options j))
    (hn : ∀ i ∈ clients, 1 ≤ (options i).nPings ∧ (options i).nPings ≤ 2 ^ 64)
    (hno : ∀ i ∈ clients, .client i .interrupt ∉ es)
    (hcomplete : ∀ i ∈ clients, ((machine.exec (start options random now server) es).clients i).Complete)
    (hsuccess : ∀ i ∈ clients, ((machine.exec (start options random now server) es).clients i).exitCode = 0) :
    ∑ i ∈ clients, (options i).nPings ≤ (machine.exec (start options random now server) es).server.nPings := by
  obtain ⟨l, h⟩ := answered_run options random now server hr
  have hfinished : ∀ i ∈ clients, Runner.Finished (options i) (Ping.create (options i) (random i)).nextSeq
      ((machine.exec (start options random now server) es).clients i) := by
    intro i hi
    obtain ⟨haccounted, hticking⟩ := client_accounted options random now server es hr (hn i hi).1 (hno i hi)
    exact haccounted.finished_of_complete hticking (hcomplete i hi)
  have hreceived : ∀ i ∈ clients, (options i).nPings =
      ((machine.exec (start options random now server) es).clients i).statisticsCollector.nReceived := by
    intro i hi
    have hcode := hsuccess i hi
    unfold Runner.exitCode at hcode
    split at hcode
    · rename_i hall
      rw [hall, (hfinished i hi).statistics.1]
    · cases hcode
  rw [Finset.sum_congr rfl hreceived]
  refine h.received_le hapart fun i hi => ?_
  rw [(hfinished i hi).allSent]
  exact (hn i hi).2

/-- The two clients ping once, and both are answered. -/
def bothAnswers : List (Event Bool) :=
  twoAnswers ++ [.client false (.data 300 ⟨⟨(["ping", "a", "7"] : List Component), true, 4000⟩, 7, 0⟩)]

theorem processed_of_success_two :
    ∑ i, (twoClients i).nPings ≤ (machine.exec (started twoClients) bothAnswers).server.nPings :=
  processed_of_success twoClients (fun _ => 0) (fun _ => 0) ⟨[], 1000, false, 0, 0⟩ bothAnswers (by decide +kernel)
    Finset.univ (fun _ _ _ _ hne => apart_twoClients hne) (by decide +kernel) (by decide +kernel) (by decide +kernel)
    (by decide +kernel)

end Exchange

end NdnTools.Ndnping
