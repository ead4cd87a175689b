/-
What `Consumer` sees of the classes it is given, and what it relies on: a `DiscoverVersion` signals
once at most, and a success with a packet it has received; a `PipelineInterests` hands on packets it
has received. The two discoveries and the four pipelines are shown to be such classes.
-/
import NdnTools.Chunks.Adaptive.HandedOn
import NdnTools.Chunks.Discovery.Awake
import NdnTools.Chunks.FixedWindow.Window

namespace NdnTools.Chunks

/-! ## Pipelines -/

/-- A class derived from `PipelineInterests`, and `Inv`, which holds in every state of its runs. -/
structure PipelineClass (σ β : Type) where
  machine : Machine σ β
  [decidableEnabled : ∀ s e, Decidable (machine.enabled s e)]
  /-- `run` with the discovered packet. -/
  run : Data → σ
  base : σ → PipelineInterests
  /-- The packet that an event brings. -/
  packet : β → Option Data
  /-- `cancel`, called from outside. -/
  cancel : β
  isCancel : β → Bool
  Inv : σ → Prop
  inv_run : ∀ data, Inv (run data)
  inv_step : ∀ s e, Inv s → machine.enabled s e → Inv (machine.step s e)
  delivered_run : ∀ data, (base (run data)).delivered = []
  delivered_step : ∀ s e, Inv s → machine.enabled s e → ∃ ds : List Data, (∀ d ∈ ds, packet e = some d) ∧
    (base (machine.step s e)).delivered = (base s).delivered ++ ds.map Data.segmentNo

attribute [instance] PipelineClass.decidableEnabled

namespace PipelineClass

variable {σ β : Type} (P : PipelineClass σ β) {s : σ} {e : β} {data : Data} {es : List β}

/-- The packets handed on to `onData` by an event. -/
def handed (s : σ) (e : β) : List Data :=
  (P.packet e).toList.flatMap
    (List.replicate ((P.base (P.machine.step s e)).delivered.length - (P.base s).delivered.length))

theorem mem_handed {d : Data} (h : d ∈ P.handed s e) : P.packet e = some d := by
  obtain ⟨d', hd', hmem⟩ := List.mem_flatMap.1 h
  rw [List.eq_of_mem_replicate hmem]
  exact Option.mem_toList.1 hd'

theorem delivered_handed (hs : P.Inv s) (he : P.machine.enabled s e) :
    (P.base (P.machine.step s e)).delivered = (P.base s).delivered ++ (P.handed s e).map Data.segmentNo := by
  obtain ⟨ds, hds, heq⟩ := P.delivered_step s e hs he
  have hhanded : P.handed s e = ds := by
    unfold handed
    rw [heq, List.length_append, List.length_map, Nat.add_sub_cancel_left]
    cases hp : P.packet e with
    | none =>
      have hnil : ds = [] := List.eq_nil_iff_forall_not_mem.2 fun d hd => by
        have := hds d hd
        rw [hp] at this; cases this
      simp [hnil]
    | some d =>
      rw [Option.toList_some, List.flatMap_singleton, Eq.comm, List.eq_replicate_iff]
      refine ⟨rfl, fun d' hd' => ?_⟩
      have := hds d' hd'
      rw [hp] at this
      exact (Option.some.inj this).symm
  rw [hhanded]
  exact heq

/-- The pipeline's state after the events `es`, every packet of which is of the store. -/
structure Reached (store : List Data) (data : Data) (es : List β) (s : σ) : Prop where
  runs : P.machine.Runs (P.run data) es
  exec : P.machine.exec (P.run data) es = s
  fromStore : ∀ e ∈ es, ∀ d, P.packet e = some d → d ∈ store
  uncancelled : ∀ e ∈ es, P.isCancel e = false

variable {P} {store : List Data}

theorem Reached.start (data : Data) : P.Reached store data [] (P.run data) :=
  ⟨trivial, rfl, fun _ he => (List.not_mem_nil he).elim, fun _ he => (List.not_mem_nil he).elim⟩

theorem Reached.inv (h : P.Reached store data es s) : P.Inv s := by
  have hall := Machine.always_of_step (I := P.Inv) (fun s e hs he => P.inv_step s e hs he) (P.inv_run data) h.runs
  rw [← h.exec]
  exact Machine.always_last _ _ hall

theorem Reached.step (h : P.Reached store data es s) (he : P.machine.enabled s e) (hcancel : P.isCancel e = false)
    (hd : ∀ d, P.packet e = some d → d ∈ store) : P.Reached store data (es ++ [e]) (P.machine.step s e) where
  runs := by
    rw [Machine.runs_append, h.exec]
    exact ⟨h.runs, he, trivial⟩
  exec := by rw [Machine.exec_append, h.exec, Machine.exec_cons, Machine.exec_nil]
  fromStore := by
    intro e' he'
    rcases List.mem_append.1 he' with he' | he'
    · exact h.fromStore e' he'
    · rw [List.mem_singleton.1 he']
      exact hd
  uncancelled := by
    intro e' he'
    rcases List.mem_append.1 he' with he' | he'
    · exact h.uncancelled e' he'
    · rw [List.mem_singleton.1 he']
      exact hcancel

/-- What a pipeline has delivered is what it has handed on. -/
theorem Reached.delivered (h : P.Reached store data es s) :
    (P.base s).delivered = (P.machine.log P.handed (P.run data) es).map Data.segmentNo := by
  let I (s : σ) (ds : List Data) : Prop := P.Inv s ∧ (P.base s).delivered = ds.map Data.segmentNo
  have hstep : ∀ s ds e, I s ds → P.machine.enabled s e → I (P.machine.step s e) (ds ++ P.handed s e) :=
    fun s ds e hs he => ⟨P.inv_step s e hs.1 he, by rw [P.delivered_handed hs.1 he, hs.2, List.map_append]⟩
  have hstart : I (P.run data) [] := ⟨P.inv_run data, P.delivered_run data⟩
  have hinv := Machine.exec_log_inv hstep hstart h.runs
  rw [h.exec, List.nil_append] at hinv
  exact hinv.2

theorem Reached.mem_store (h : P.Reached store data es s) {d : Data}
    (hd : d ∈ P.machine.log P.handed (P.run data) es) : d ∈ store := by
  obtain ⟨_, e, he, hmem⟩ := Machine.of_mem_log hd
  exact h.fromStore e he d (P.mem_handed hmem)

end PipelineClass

namespace FixedWindow

variable {s : FixedWindow}

theorem delivered_onFailure (reason : String) (s : FixedWindow) : (onFailure reason s).delivered = s.delivered := by
  unfold onFailure cancel
  split
  · rfl
  · rfl

theorem delivered_fetchNextSegment (i : ℕ) (s : FixedWindow) : (fetchNextSegment i s).2.delivered = s.delivered := by
  have hskip : (skipExcluded s).delivered = s.delivered := by rw [skipExcluded_eq]
  unfold fetchNextSegment
  split
  · rfl
  · split
    · exact delivered_onFailure _ _
    · dsimp only
      split
      · exact hskip
      · exact hskip

theorem delivered_requestLoop : ∀ (n i : ℕ) (s : FixedWindow), (requestLoop n i s).delivered = s.delivered
  | 0, _, _ => rfl
  | n + 1, i, s => by
    have hnext := delivered_fetchNextSegment i s
    unfold requestLoop
    split
    · next heq => rw [heq] at hnext; exact hnext
    · next heq => rw [heq] at hnext; rw [delivered_requestLoop n]; exact hnext

theorem delivered_handleData (d : Data) (i : ℕ) (hgo : s.isStopping = false) :
    (handleData d i s).delivered = s.delivered ++ [d.segmentNo] := by
  rcases handleData_cases d i hgo with ⟨-, heq⟩ | ⟨last, -, -, ⟨-, heq⟩ | ⟨slot, -, -, -, heq⟩⟩
  · rw [heq, delivered_fetchNextSegment]; rfl
  · rw [heq, delivered_fetchNextSegment]; rfl
  · rw [heq, delivered_onFailure]; rfl

theorem delivered_handleFail (reason : String) (i : ℕ) (s : FixedWindow) :
    (handleFail reason i s).delivered = s.delivered := by
  cases hgo : s.isStopping with
  | true => simp [handleFail, hgo]
  | false =>
    rcases handleFail_cases reason i hgo with ⟨-, -, heq⟩ | ⟨-, heq⟩ | ⟨-, t, rfl, heq | ⟨heq, -⟩⟩
    · rw [heq, delivered_onFailure]
    · rw [heq]
    · rw [heq, delivered_onFailure]
    · rw [heq]

/-- What an event hands on. -/
theorem handedOn_step (s : FixedWindow) (e : Event) : (step s e).delivered = s.delivered ∨
    ∃ i d, e = .data i d ∧ (step s e).delivered = s.delivered ++ [d.segmentNo] := by
  cases e with
  | data i d =>
    cases hgo : s.isStopping with
    | true => exact .inl (by simp [step, handleData, endFetcher, hgo])
    | false => exact .inr ⟨i, d, rfl, delivered_handleData (s := endFetcher ⟨true, false⟩ i s) d i hgo⟩
  | fail i reason => exact .inl (delivered_handleFail reason i (failSlot i s))
  | cancel =>
    left
    show (cancel s).delivered = s.delivered
    unfold cancel
    split <;> rfl

end FixedWindow

/-- `PipelineInterestsFixedWindow`. -/
def fixedWindow (maxPipelineSize : ℕ) : PipelineClass FixedWindow FixedWindow.Event where
  machine := FixedWindow.machine
  decidableEnabled s e := inferInstanceAs (Decidable (FixedWindow.enabled s e))
  run := FixedWindow.run maxPipelineSize
  base s := s.toPipelineInterests
  packet
    | .data _ d => some d
    | _ => none
  cancel := .cancel
  isCancel
    | .cancel => true
    | _ => false
  Inv _ := True
  inv_run _ := trivial
  inv_step _ _ _ _ := trivial
  delivered_run data := FixedWindow.delivered_requestLoop _ _ _
  delivered_step s e _ _ := by
    rcases FixedWindow.handedOn_step s e with heq | ⟨i, d, rfl, heq⟩
    · exact ⟨[], by simp, heq.trans (by simp)⟩
    · exact ⟨[d], by simp, heq⟩

/-- The adaptive pipelines, Data arriving for all Interests of its name. -/
def adaptive {κ : Type} (sch : Scheme κ) (now : Time) (control : κ) :
    PipelineClass (Adaptive κ) Adaptive.Arrival where
  machine := Adaptive.arrivals sch
  run := Adaptive.run sch now control
  base s := s.toPipelineInterests
  packet := Adaptive.Arrival.packet
  cancel := .cancel
  isCancel
    | .cancel => true
    | _ => false
  Inv := Adaptive.Keyed
  inv_run data := (Adaptive.keyed_run sch now control data).1
  inv_step _ _ hs he := (Adaptive.delivered_arrival hs he).1
  delivered_run data := (Adaptive.keyed_run sch now control data).2
  delivered_step _ _ hs he := (Adaptive.delivered_arrival hs he).2

/-! ## Discoveries -/

/-- A class derived from `DiscoverVersion`, and `Inv`, which holds of the packets received so far and
the state. -/
structure DiscoveryClass (δ α : Type) where
  machine : Machine δ α
  [decidableEnabled : ∀ s e, Decidable (machine.enabled s e)]
  run : δ
  signals : δ → List Signal
  packet : α → Option NamedData
  Inv : List NamedData → δ → Prop
  inv_run : Inv [] run
  inv_step : ∀ seen s e, Inv seen s → machine.enabled s e → Inv (seen ++ (packet e).toList) (machine.step s e)
  signals_run : signals run = []
  signals_step : ∀ seen s e, Inv seen s → machine.enabled s e → signals s <+: signals (machine.step s e)
  once : ∀ seen s, Inv seen s → (signals s).length ≤ 1
  success : ∀ seen s d, Inv seen s → .success d ∈ signals s → d ∈ seen
  waits : ∀ seen s, Inv seen s → signals s = [] → ∃ e, machine.enabled s e ∧ packet e = none

attribute [instance] DiscoveryClass.decidableEnabled

section Discoveries

variable [Conventions]

/-- What an iterative discovery has received is among the packets seen, and it reports one of them. -/
structure DiscoverVersionIterative.Seen (seen : List NamedData) (s : DiscoverVersionIterative) : Prop where
  coherent : ∃ interest, Coherent interest s
  awake : Awake s
  received : ∀ d ∈ s.received, d ∈ seen
  success : ∀ d, .success d ∈ s.signals → d ∈ s.received

namespace DiscoverVersionIterative

variable {seen : List NamedData} {s s' : DiscoverVersionIterative} {e : Event} {interest : Interest}

theorem Seen.emit {signal : Signal} {g : Fetcher Interest NamedData} (h : Seen seen s) (hnil : s.signals = [])
    (hc : (∃ next, Coherent next (emit signal { s with fetcher := g })) ∧ Awake (emit signal { s with fetcher := g }))
    (packets : List NamedData) (hsignal : ∀ d, signal = .success d → d ∈ s.received) :
    Seen (seen ++ packets) (DiscoverVersionIterative.emit signal { s with fetcher := g }) where
  coherent := hc.1
  awake := hc.2
  received d hd := List.mem_append_left _ (h.received d hd)
  success d hd := by
    simp only [DiscoverVersionIterative.emit, hnil, List.nil_append, List.mem_singleton] at hd
    exact hsignal d hd.symm

/-- The discovery goes on with one more packet received. -/
theorem Seen.receive {d : NamedData} (h : Seen seen s) (hnil : s.signals = [])
    (hc : (∃ next, Coherent next s') ∧ Awake s') (hreceived : s'.received = s.received ++ [d])
    (hsignals : s'.signals = s.signals) : Seen (seen ++ [d]) s' where
  coherent := hc.1
  awake := hc.2
  received d' hd' := by
    rw [hreceived] at hd'
    exact (List.mem_append.1 hd').elim (fun hm => List.mem_append_left _ (h.received d' hm))
      fun hm => List.mem_append_right _ hm
  success d' hd' := by
    rw [hsignals, hnil] at hd'
    cases hd'

theorem Reaction.sees (h : Seen seen s) (hcoherent : Coherent interest s) (hr : Reaction interest s e s')
    (hawake : Awake s') : Seen (seen ++ e.packet.toList) s' ∧ s.signals <+: s'.signals := by
  have hc := And.intro (hr.coherent hcoherent) hawake
  cases hr with
  | silent quiet follows retries =>
    exact ⟨⟨hc.1, hc.2, fun d hd => List.mem_append_left _ (h.received d hd), h.success⟩, List.prefix_rfl⟩
  | version d v running isVersion =>
    exact ⟨h.receive (hcoherent.signals_nil running) hc rfl rfl, List.prefix_rfl⟩
  | strayFound d running isStray found =>
    exact ⟨h.receive (hcoherent.signals_nil running) hc rfl rfl, List.prefix_rfl⟩
  | strayEarly d running isStray found =>
    exact ⟨h.receive (hcoherent.signals_nil running) hc rfl rfl, List.prefix_rfl⟩
  | nack reason text running ends follows ended =>
    refine ⟨h.emit (hcoherent.signals_nil running) hc _ fun d hd => ?_, List.prefix_append _ _⟩
    cases hd
  | @timeout g text running ends follows ended =>
    have hrec : Recorded { s with fetcher := g } := (hcoherent.follow follows s.sent).recorded
    rcases handleTimeout_eq hrec text with ⟨-, d, hd, -, -, heq⟩ | ⟨-, heq⟩
    · rw [heq] at hc ⊢
      refine ⟨h.emit (hcoherent.signals_nil running) hc _ fun d' hd' => ?_, List.prefix_append _ _⟩
      cases hd'
      exact hd
    · rw [heq] at hc ⊢
      refine ⟨h.emit (hcoherent.signals_nil running) hc _ fun d hd => ?_, List.prefix_append _ _⟩
      cases hd

theorem seen_step (h : Seen seen s) (he : enabled s e) :
    Seen (seen ++ e.packet.toList) (step s e) ∧ s.signals <+: (step s e).signals := by
  obtain ⟨interest, hc⟩ := h.coherent
  exact (step_reaction hc.contract hc.fetches he).sees h hc (awake_step hc h.awake he)

theorem exists_enabled (h : Seen seen s) (hnil : s.signals = []) : ∃ e, enabled s e ∧ e.packet = none := by
  obtain ⟨e, he, hcancel, hdata⟩ := Fetcher.exists_enabled h.awake.waits (h.awake.running hnil)
  refine ⟨e, ?_, hdata⟩
  cases e with
  | data i d => cases hdata
  | cancel => exact absurd rfl hcancel
  | nack => exact he
  | timeout => exact he
  | backoff => exact he

end DiscoverVersionIterative

def iterative (namePrefix : Name) (options : DiscoveryOptions) :
    DiscoveryClass DiscoverVersionIterative DiscoverVersionIterative.Event where
  machine := DiscoverVersionIterative.machine
  run := DiscoverVersionIterative.run namePrefix options
  signals s := s.signals
  packet := Fetcher.Event.packet
  Inv := DiscoverVersionIterative.Seen
  inv_run := ⟨⟨_, DiscoverVersionIterative.coherent_run namePrefix options⟩,
    DiscoverVersionIterative.awake_run namePrefix options,
    fun _ hd => (List.not_mem_nil hd).elim, fun _ hd => (List.not_mem_nil hd).elim⟩
  inv_step _ _ _ hs he := (DiscoverVersionIterative.seen_step hs he).1
  signals_run := rfl
  signals_step _ _ _ hs he := (DiscoverVersionIterative.seen_step hs he).2
  once _ s hs := by
    obtain ⟨interest, hc⟩ := hs.coherent
    rcases hc.signalled with h | ⟨-, h⟩
    · simp [h]
    · exact h.le
  success _ _ d hs hd := hs.received d (hs.success d hd)
  waits _ _ hs hnil := DiscoverVersionIterative.exists_enabled hs hnil

/-- What a discovery of a fixed version has received is among the packets seen. -/
structure DiscoverVersionFixed.Seen (seen : List NamedData) (s : DiscoverVersionFixed) : Prop where
  coherent : Coherent s
  awake : Awake s
  received : ∀ d ∈ s.received, d ∈ seen

theorem DiscoverVersionFixed.Reaction.sees {seen : List NamedData} {s s' : DiscoverVersionFixed}
    {e : DiscoverVersionFixed.Event} (h : Seen seen s) (hr : Reaction s e s') (hawake : Awake s') :
    Seen (seen ++ e.packet.toList) s' ∧ s.signals <+: s'.signals := by
  have hc := hr.coherent h.coherent
  have hkept : ∀ d ∈ s.received, d ∈ seen ++ e.packet.toList := fun d hd => List.mem_append_left _ (h.received d hd)
  cases hr with
  | silent quiet follows retries expressed => exact ⟨⟨hc, hawake, hkept⟩, List.prefix_rfl⟩
  | segment d running isSegment follows ended expressed =>
    refine ⟨⟨hc, hawake, fun d' hd' => ?_⟩, List.prefix_append _ _⟩
    rcases List.mem_append.1 hd' with hd' | hd'
    · exact hkept d' hd'
    · exact List.mem_append_right _ hd'
  | stray d running isStray =>
    refine ⟨⟨hc, hawake, fun d' hd' => ?_⟩, List.prefix_rfl⟩
    rcases List.mem_append.1 hd' with hd' | hd'
    · exact hkept d' hd'
    · exact List.mem_append_right _ hd'
  | failure text running follows ended expressed => exact ⟨⟨hc, hawake, hkept⟩, List.prefix_append _ _⟩

theorem DiscoverVersionFixed.seen_step {seen : List NamedData} {s : DiscoverVersionFixed}
    {e : DiscoverVersionFixed.Event} (h : Seen seen s) (he : enabled s e) :
    Seen (seen ++ e.packet.toList) (step s e) ∧ s.signals <+: (step s e).signals :=
  (step_reaction h.coherent.contract h.coherent.fetches he).sees h (awake_step h.coherent h.awake he)

theorem DiscoverVersionFixed.exists_enabled {seen : List NamedData} {s : DiscoverVersionFixed} (h : Seen seen s)
    (hnil : s.signals = []) : ∃ e, enabled s e ∧ e.packet = none := by
  obtain ⟨e, he, hcancel, hdata⟩ := Fetcher.exists_enabled h.awake.waits (h.awake.running hnil)
  refine ⟨e, ?_, hdata⟩
  cases e with
  | data i d => cases hdata
  | cancel => exact absurd rfl hcancel
  | nack => exact he
  | timeout => exact he
  | backoff => exact he

def fixed (namePrefix : Name) (options : DiscoveryOptions) :
    DiscoveryClass DiscoverVersionFixed DiscoverVersionFixed.Event where
  machine := DiscoverVersionFixed.machine
  run := DiscoverVersionFixed.run namePrefix options
  signals s := s.signals
  packet := Fetcher.Event.packet
  Inv := DiscoverVersionFixed.Seen
  inv_run := ⟨DiscoverVersionFixed.coherent_run namePrefix options, DiscoverVersionFixed.awake_run namePrefix options,
    fun _ hd => (List.not_mem_nil hd).elim⟩
  inv_step _ _ _ hs he := (DiscoverVersionFixed.seen_step hs he).1
  signals_run := rfl
  signals_step _ _ _ hs he := (DiscoverVersionFixed.seen_step hs he).2
  once _ s hs := by
    rcases hs.coherent.signalled with ⟨h, -⟩ | ⟨_, h, -⟩
    · simp [h]
    · simp [h]
  success _ _ d hs hd := by
    rcases hs.coherent.signalled with ⟨h, -⟩ | ⟨signal, h, -, hended⟩
    · rw [h] at hd; cases hd
    · rw [h, List.mem_singleton] at hd
      subst hd
      obtain ⟨-, before, hreceived, -⟩ := hended
      exact hs.received d (by rw [hreceived]; exact List.mem_append_right _ (List.mem_singleton_self d))
  waits _ _ hs hnil := DiscoverVersionFixed.exists_enabled hs hnil

end Discoveries

end NdnTools.Chunks
