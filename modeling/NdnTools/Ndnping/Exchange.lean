/-
Any number of ndnping clients and one ndnping server. The network may lose, repeat and delay what it carries, and
it carries the Interests of others, too; Data reaches a client only if the server has put it.
-/
import NdnTools.Lib.Pigeonhole
import NdnTools.Ndnping.Completion
import NdnTools.Ndnping.Server

namespace NdnTools.Ndnping

structure Exchange (ι : Type) where
  clients : ι → Runner
  server : PingServer

namespace Exchange

inductive Event (ι : Type)
  | client (i : ι) (e : Runner.Event)
  | server (e : PingServer.Event)
  deriving Repr, DecidableEq

/-- Data that matches the Interest it is for has been put. -/
def Delivered (put : List PingData) : Runner.Event → Prop
  | .data _ p => ∃ d ∈ put, p.interest.name <+: d.name
  | _ => True

instance (put : List PingData) : (e : Runner.Event) → Decidable (Delivered put e)
  | .data _ p => inferInstanceAs (Decidable (∃ d ∈ put, p.interest.name <+: d.name))
  | .timer _ => .isTrue trivial
  | .nack _ => .isTrue trivial
  | .timeout _ => .isTrue trivial
  | .interrupt => .isTrue trivial

variable {ι : Type}

def enabled (x : Exchange ι) : Event ι → Prop
  | .client i e => (x.clients i).enabled e ∧ Delivered x.server.put e
  | .server e => x.server.enabled e

instance (x : Exchange ι) : (e : Event ι) → Decidable (enabled x e)
  | .client i e => inferInstanceAs (Decidable ((x.clients i).enabled e ∧ Delivered x.server.put e))
  | .server e => inferInstanceAs (Decidable (x.server.enabled e))

def start (options : ι → Options) (random : ι → UInt64) (now : ι → Time) (server : ServerOptions) : Exchange ι where
  clients i := Runner.start (options i) (random i) (now i)
  server := PingServer.start server

variable [DecidableEq ι]

def step (x : Exchange ι) : Event ι → Exchange ι
  | .client i e => { x with clients := Function.update x.clients i ((x.clients i).step e) }
  | .server e => { x with server := x.server.step e }

def machine : Machine (Exchange ι) (Event ι) := ⟨enabled, step⟩

instance (x : Exchange ι) (e : Event ι) : Decidable (machine.enabled x e) := inferInstanceAs (Decidable (enabled x e))

end Exchange

/-! ## What a client has received -/

/-- The name of the ping with a sequence number: `makePingName` reads the options only. -/
abbrev Options.pingName (options : Options) (seq : UInt64) : Name := (Ping.create options 0).makePingName seq

theorem component_injective {a b : String} (h : (a : Component) = b) : a = b := by
  rw [← String.toByteArray_inj]
  exact ByteArray.ext (Array.toList_inj.1 h)

theorem toString_injective {m n : ℕ} (h : toString m = toString n) : m = n := by
  have hdigits : Nat.toDigits 10 m = Nat.toDigits 10 n := by
    rw [← Nat.toList_repr, ← Nat.toList_repr]
    exact congrArg String.toList h
  have hvalue := congrArg (Nat.ofDigitChars 10 · 0) hdigits
  rwa [Nat.ofDigitChars_toDigits (by decide) le_rfl, Nat.ofDigitChars_toDigits (by decide) le_rfl] at hvalue

theorem Options.pingName_inj (options : Options) {seq seq' : UInt64} :
    options.pingName seq = options.pingName seq' ↔ seq = seq' := by
  constructor
  · intro h
    have hlast := List.append_cancel_left h
    have htext : toString seq.toNat = toString seq'.toNat := component_injective (List.cons.inj hlast).1
    exact UInt64.toNat_inj.1 (toString_injective htext)
  · rintro rfl
    rfl

theorem Options.length_pingName (options : Options) (seq seq' : UInt64) :
    (options.pingName seq).length = (options.pingName seq').length := by
  simp [Ping.makePingName]

theorem consecutive_nodup (first : UInt64) {n : ℕ} (h : n ≤ 2 ^ 64) : (consecutive first n).Nodup := by
  refine List.Nodup.map_on ?_ List.nodup_range
  intro i hi j hj heq
  have hnat := congrArg UInt64.toNat (UInt64.add_right_inj first |>.1 heq)
  rw [List.mem_range] at hi hj
  rwa [UInt64.toNat_ofNat', UInt64.toNat_ofNat', Nat.mod_eq_of_lt (by omega), Nat.mod_eq_of_lt (by omega)] at hnat

namespace Runner

variable {options : Options} {first : UInt64} {l : List Pending} {r : Runner}

/-- The Interests `l` have been answered with Data. -/
structure Received (options : Options) (first : UInt64) (l : List Pending) (r : Runner) : Prop where
  sameOptions : r.ping.options = options
  sent : r.ping.nSent = r.expressed.length
  next : r.ping.nextSeq = first + UInt64.ofNat r.expressed.length
  names : r.expressed.map (fun p => p.interest.name) = (consecutive first r.expressed.length).map options.pingName
  apart : (l ++ r.face).Subperm r.expressed
  counted : r.statisticsCollector.nReceived = l.length

theorem Received.finish (h : Received options first l r) : Received options first l r.finish := by
  obtain ⟨_, _, _, heq⟩ := finish_frame r
  rw [heq]
  exact ⟨h.sameOptions, h.sent, h.next, h.names, h.apart, h.counted⟩

theorem received_expressPing (h : Received options first l r) (now : Time) :
    Received options first l (expressPing now r) where
  sameOptions := h.sameOptions
  sent := by
    simp [expressPing, h.sent]
  next := by
    simp [expressPing, h.next, UInt64.ofNat_add, UInt64.add_assoc]
  names := by
    have hname : (nextInterest now r.ping).interest.name = options.pingName r.ping.nextSeq := by
      rw [← h.sameOptions]
      rfl
    simp [expressPing, h.names, consecutive_succ, hname, h.next]
  apart := by
    show (l ++ (r.face ++ _)).Subperm (r.expressed ++ _)
    rw [← List.append_assoc]
    exact h.apart.append (List.Subperm.refl _)
  counted := h.counted

theorem received_performPing (h : Received options first l r) (now : Time) :
    Received options first l (performPing now r) := by
  have he := received_expressPing h now
  unfold performPing
  dsimp only
  split
  · exact ⟨he.sameOptions, he.sent, he.next, he.names, he.apart, he.counted⟩
  · exact he.finish

/-- The Interest that an event answers with Data. -/
def satisfied : Event → List Pending
  | .data _ p => [p]
  | _ => []

/-- An answer that is not Data. -/
theorem Received.unsatisfied (h : Received options first l r) (p : Pending) (c : StatisticsCollector) (nTimeouts : ℤ)
    (hc : c.nReceived = r.statisticsCollector.nReceived) :
    Received options first (l ++ []) { answered p r with statisticsCollector := c, nTimeouts := nTimeouts } := by
  rw [List.append_nil]
  refine ⟨h.sameOptions, h.sent, h.next, h.names, ?_, hc.trans h.counted⟩
  exact (((List.Sublist.refl l).append List.erase_sublist).subperm).trans h.apart

theorem Received.step (h : Received options first l r) {e : Event} (he : enabled r e) :
    Received options first (l ++ satisfied e) (step r e) := by
  cases e with
  | timer now =>
    show Received options first (l ++ []) _
    rw [List.append_nil]
    exact received_performPing (r := { r with ping := { r.ping with nextPingEvent := none } })
      ⟨h.sameOptions, h.sent, h.next, h.names, h.apart, h.counted⟩ now
  | data now p =>
    refine Received.finish ⟨h.sameOptions, h.sent, h.next, h.names, ?_, ?_⟩
    · show (l ++ [p] ++ r.face.erase p).Subperm r.expressed
      rw [List.append_assoc]
      exact ((List.perm_cons_erase he).symm.append_left l).subperm.trans h.apart
    · show r.statisticsCollector.nReceived + 1 = (l ++ [p]).length
      rw [h.counted, List.length_append]
      rfl
  | nack p => exact (h.unsatisfied p r.statisticsCollector.recordNack r.nTimeouts rfl).finish
  | timeout p => exact (h.unsatisfied p r.statisticsCollector.recordTimeout (r.nTimeouts + 1) rfl).finish
  | interrupt =>
    show Received options first (l ++ []) _
    rw [List.append_nil]
    exact ⟨h.sameOptions, h.sent, h.next, h.names, h.apart, h.counted⟩

theorem received_start (options : Options) (random : UInt64) (now : Time) :
    Received options (Ping.create options random).nextSeq [] (start options random now) := by
  have hcreate : Received options (Ping.create options random).nextSeq [] (create options random now) :=
    { sameOptions := rfl
      sent := rfl
      next := by simp [create]
      names := rfl
      apart := List.Subperm.refl _
      counted := rfl }
  exact received_performPing hcreate now

theorem Received.name_eq (h : Received options first l r) {name : Name}
    (hname : name ∈ l.map fun p => p.interest.name) : ∃ seq, options.pingName seq = name := by
  obtain ⟨p, hp, rfl⟩ := List.mem_map.1 hname
  have hmem := List.mem_map_of_mem (f := fun p : Pending => p.interest.name)
    (h.apart.subset (List.mem_append_left _ hp))
  rw [h.names] at hmem
  obtain ⟨seq, -, heq⟩ := List.mem_map.1 hmem
  exact ⟨seq, heq⟩

/-- The names of at most 2^64 pings are all different, and equally long. -/
theorem Received.names_apart (h : Received options first l r) (hfew : r.ping.nSent ≤ 2 ^ 64) :
    (l.map fun p => p.interest.name).Pairwise fun a b => ¬ a <+: b ∧ ¬ b <+: a := by
  have hsent := h.sent
  obtain ⟨l', hperm, hsub⟩ := (List.sublist_append_left l r.face).subperm.trans h.apart
  have hall : (r.expressed.map fun p => p.interest.name).Nodup := by
    rw [h.names]
    exact (consecutive_nodup first (by omega)).map fun _ _ heq => (options.pingName_inj).1 heq
  have hnodup : (l.map fun p => p.interest.name).Nodup := (hperm.map _).nodup_iff.1 (hall.sublist (hsub.map _))
  refine hnodup.pairwise_of_forall_ne fun a ha b hb hne => ?_
  obtain ⟨seq, rfl⟩ := h.name_eq ha
  obtain ⟨seq', rfl⟩ := h.name_eq hb
  have hlength := options.length_pingName seq seq'
  exact ⟨fun hp => hne (hp.eq_of_length hlength), fun hp => hne (hp.eq_of_length hlength.symm).symm⟩

end Runner

/-- Clients whose pings no Data can satisfy together: their identifiers differ. -/
structure Options.Apart (options options' : Options) : Prop where
  samePrefix : options.pingPrefix = options'.pingPrefix
  identified : options.clientIdentifier ≠ []
  identified' : options'.clientIdentifier ≠ []
  different : options.clientIdentifier ≠ options'.clientIdentifier

theorem Options.pingName_of_identified {options : Options} (h : options.clientIdentifier ≠ []) (seq : UInt64) :
    options.pingName seq =
      options.pingPrefix ++ [("ping" : Component), options.clientIdentifier, (toString seq.toNat : Component)] := by
  simp [Ping.makePingName, Ping.create, h]

theorem Options.Apart.names {options options' : Options} (h : options.Apart options') (seq seq' : UInt64) :
    ¬ options.pingName seq <+: options'.pingName seq' := by
  intro hp
  rw [pingName_of_identified h.identified, pingName_of_identified h.identified', h.samePrefix,
    List.prefix_append_right_inj, List.cons_prefix_cons, List.cons_prefix_cons] at hp
  exact h.different hp.2.1

namespace Exchange

variable {ι : Type} [DecidableEq ι] {options : ι → Options} {first : ι → UInt64} {l : ι → List Pending}
  {server : ServerOptions} {x : Exchange ι}

/-- The Interests `l i` of client `i` have been answered with Data that the server had put. -/
structure Answered (options : ι → Options) (first : ι → UInt64) (server : ServerOptions) (l : ι → List Pending)
    (x : Exchange ι) : Prop where
  clients : ∀ i, (x.clients i).Received (options i) (first i) (l i)
  served : ∃ names, x.server.Served server names
  answers : ∀ i, ∀ p ∈ l i, ∃ d ∈ x.server.put, p.interest.name <+: d.name

theorem put_step (s : PingServer) (e : PingServer.Event) : s.put <+: (s.step e).put := by
  cases e with
  | interest name =>
    show s.put <+: (s.onInterest name).put
    rw [(PingServer.onInterest_effect name s).1]
    exact List.prefix_append _ _
  | registered => exact List.prefix_refl _
  | registerFailed reason => exact List.prefix_refl _
  | unset => exact List.prefix_refl _
  | interrupt => exact List.prefix_refl _

theorem Answered.step (h : Answered options first server l x) {e : Event ι} (he : enabled x e) :
    ∃ l', Answered options first server l' (step x e) := by
  cases e with
  | client i e =>
    refine ⟨Function.update l i (l i ++ Runner.satisfied e), fun j => ?_, h.served, fun j p hp => ?_⟩
    · by_cases hj : j = i
      · subst hj
        simp only [Exchange.step, Function.update_self]
        exact (h.clients j).step he.1
      · simp only [Exchange.step, Function.update_of_ne hj]
        exact h.clients j
    · by_cases hj : j = i
      · subst hj
        rw [Function.update_self] at hp
        rcases List.mem_append.1 hp with hp | hp
        · exact h.answers j p hp
        · cases e with
          | data now p' =>
            cases List.mem_singleton.1 hp
            exact he.2
          | timer now => cases hp
          | nack p' => cases hp
          | timeout p' => cases hp
          | interrupt => cases hp
      · rw [Function.update_of_ne hj] at hp
        exact h.answers j p hp
  | server e =>
    obtain ⟨names, hserved⟩ := h.served
    refine ⟨l, h.clients, ⟨_, hserved.step he⟩, fun i p hp => ?_⟩
    obtain ⟨d, hd, hmatches⟩ := h.answers i p hp
    exact ⟨d, (put_step x.server e).subset hd, hmatches⟩

theorem answered_run (options : ι → Options) (random : ι → UInt64) (now : ι → Time) (server : ServerOptions)
    {es : List (Event ι)} (hr : machine.Runs (start options random now server) es) :
    ∃ l, Answered options (fun i => (Ping.create (options i) (random i)).nextSeq) server l
      (machine.exec (start options random now server) es) := by
  refine Machine.always_last (P := fun x => ∃ l, Answered options _ server l x) _ _
    (Machine.always_of_step (fun x e h he => ?_) ?_ hr)
  · obtain ⟨_, h⟩ := h
    exact h.step he
  · exact ⟨fun _ => [], fun i => Runner.received_start (options i) (random i) (now i),
      ⟨[], PingServer.served_start server⟩, fun _ _ hp => nomatch hp⟩

omit [DecidableEq ι] in
theorem Answered.received_le (h : Answered options first server l x) {clients : Finset ι}
    (hapart : ∀ i ∈ clients, ∀ j ∈ clients, i ≠ j → (options i).Apart (options j))
    (hfew : ∀ i ∈ clients, (x.clients i).ping.nSent ≤ 2 ^ 64) :
    ∑ i ∈ clients, (x.clients i).statisticsCollector.nReceived ≤ x.server.nPings := by
  obtain ⟨names, hserved⟩ := h.served
  have hput : x.server.nPings = (x.server.put.map PingData.name).length := by
    rw [hserved.counted, hserved.put, List.length_map, List.length_map]
  have hcount : ∑ i ∈ clients, (x.clients i).statisticsCollector.nReceived =
      ((clients.toList.flatMap fun i => (l i).map fun p => p.interest.name).length : ℤ) := by
    rw [List.length_flatMap]
    simp only [List.length_map]
    rw [Finset.sum_map_toList]
    push_cast
    exact Finset.sum_congr rfl fun i _ => (h.clients i).counted
  rw [hput, hcount]
  refine Int.ofNat_le.2 (Pigeonhole.length_le_of_prefixes ?_ ?_)
  · refine List.pairwise_flatMap.2 ⟨fun i hi => ?_, ?_⟩
    · exact (h.clients i).names_apart (hfew i (Finset.mem_toList.1 hi))
    · refine (Finset.nodup_toList clients).pairwise_of_forall_ne fun i hi j hj hne a ha b hb => ?_
      obtain ⟨seq, rfl⟩ := (h.clients i).name_eq ha
      obtain ⟨seq', rfl⟩ := (h.clients j).name_eq hb
      rw [Finset.mem_toList] at hi hj
      exact ⟨(hapart i hi j hj hne).names seq seq', (hapart j hj i hi hne.symm).names seq' seq⟩
  · intro name hname
    obtain ⟨i, -, hname⟩ := List.mem_flatMap.1 hname
    obtain ⟨p, hp, rfl⟩ := List.mem_map.1 hname
    obtain ⟨d, hd, hmatches⟩ := h.answers i p hp
    exact ⟨d.name, List.mem_map_of_mem hd, hmatches⟩

/-- Clients that ping apart from each other have together received at most as many answers as the server has
given. -/
theorem received_le_processed (options : ι → Options) (random : ι → UInt64) (now : ι → Time) (server : ServerOptions)
    (es : List (Event ι)) (hr : machine.Runs (start options random now server) es) (clients : Finset ι)
    (hapart : ∀ i ∈ clients, ∀ j ∈ clients, i ≠ j → (options i).Apart (options j))
    (hfew : ∀ i ∈ clients, ((machine.exec (start options random now server) es).clients i).ping.nSent ≤ 2 ^ 64) :
    ∑ i ∈ clients, ((machine.exec (start options random now server) es).clients i).statisticsCollector.nReceived ≤
      (machine.exec (start options random now server) es).server.nPings := by
  obtain ⟨_, h⟩ := answered_run options random now server hr
  exact h.received_le hapart hfew

/-- Clients that start at the time 0 and a server without a limit. -/
abbrev started {ι : Type} (options : ι → Options) : Exchange ι :=
  start options (fun _ => 0) (fun _ => 0) ⟨[], 1000, false, 0, 0⟩

/-- Two clients of one prefix, with the identifiers "a" and "b"; the answer to the first is lost. -/
def twoClients (i : Bool) : Options :=
  ⟨[], false, false, 1, 1000, 4000, 7, if i then ("b" : Component) else ("a" : Component)⟩

def twoAnswers : List (Event Bool) :=
  [.server .registered, .server (.interest (["ping", "a", "7"] : List Component)),
    .server (.interest (["ping", "b", "7"] : List Component)),
    .client true (.data 200 ⟨⟨(["ping", "b", "7"] : List Component), true, 4000⟩, 7, 0⟩)]

theorem apart_twoClients {i j : Bool} (hne : i ≠ j) : (twoClients i).Apart (twoClients j) := by
  have hidentified : ∀ i, (twoClients i).clientIdentifier ≠ [] := by decide +kernel
  have hdifferent : ∀ i j, i ≠ j → (twoClients i).clientIdentifier ≠ (twoClients j).clientIdentifier := by
    decide +kernel
  exact ⟨rfl, hidentified i, hidentified j, hdifferent i j hne⟩

theorem received_le_processed_two :
    ∑ i, ((machine.exec (started twoClients) twoAnswers).clients i).statisticsCollector.nReceived ≤
      (machine.exec (started twoClients) twoAnswers).server.nPings :=
  received_le_processed twoClients (fun _ => 0) (fun _ => 0) ⟨[], 1000, false, 0, 0⟩ twoAnswers (by decide +kernel)
    Finset.univ (fun _ _ _ _ hne => apart_twoClients hne) (by decide +kernel)

/-- A client without an identifier takes the answer to another client, whose identifier is the number of its ping,
for its own. -/
def mixedClients (i : Bool) : Options :=
  ⟨[], false, false, 1, 1000, 4000, 7, if i then ("7" : Component) else []⟩

example :
    let es := [.server .registered, .server (.interest (["ping", "7", "7"] : List Component)),
      .client true (.data 100 ⟨⟨(["ping", "7", "7"] : List Component), true, 4000⟩, 7, 0⟩),
      .client false (.data 100 ⟨⟨(["ping", "7"] : List Component), true, 4000⟩, 7, 0⟩)]
    let x := started mixedClients
    machine.Runs x es ∧ (machine.exec x es).server.nPings = 1 ∧
      ∀ i, ((machine.exec x es).clients i).statisticsCollector.nReceived = 1 := by
  decide +kernel

end Exchange

end NdnTools.Ndnping
