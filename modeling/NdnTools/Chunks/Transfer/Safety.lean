/-
What catchunks writes is at every moment an initial part of what putchunks was given, whatever the
network does: packets are lost, repeated or reordered, the pipeline hands them on twice, or an
exception ends the program halfway.

`Genuine` is the invariant: everything under way is a packet of the store. `Tracked` holds until an
exception: the packets validated and those being validated are the discovered one and the ones the
pipeline has handed on.
-/
import NdnTools.Chunks.Transfer.Model

namespace NdnTools.Chunks

/-! ## What the consumer makes of packets of a store -/

theorem Consumer.inOrder_prefix (content : ℕ → Bytes) {p k : ℕ} (h : p ≤ k) :
    inOrder content p <+: inOrder content k := by
  induction k, h using Nat.le_induction with
  | base => exact List.prefix_rfl
  | succ k hpk ih =>
    rw [inOrder_succ]
    exact ih.trans (List.prefix_append _ _)

theorem segmentNo_lt {p : Producer} {bytes : Bytes} {store : List Data} (h : Producer.Populates p bytes store)
    {d : Data} (hd : d ∈ store) : d.segmentNo < store.length := by
  rw [← List.mem_range, ← h.numbered]
  exact List.mem_map_of_mem hd

/-- Packets of a store, whichever and in whatever order, give an initial part of the octets it was made
of. -/
theorem Consumer.output_prefix {p : Producer} {bytes : Bytes} {store arrived : List Data} {c : Consumer}
    (h : Producer.Populates p bytes store) (harrived : ∀ d ∈ arrived, d ∈ store)
    (hc : Consumer.consume .start arrived = .ok c) : c.outputStream <+: bytes := by
  have hbelow : ∀ n ∈ arrived.map Data.segmentNo, n < store.length := by
    intro n hn
    obtain ⟨d, hd, rfl⟩ := List.mem_map.1 hn
    exact segmentNo_lt h (harrived d hd)
  -- `k` segments are printed, and all of them arrived
  have hprefix : ∀ k, (∀ i < k, i ∈ arrived.map Data.segmentNo) → inOrder (contentOf store) k <+: bytes := by
    intro k hk
    rw [← inOrder_store h]
    refine Consumer.inOrder_prefix _ ?_
    by_contra hlt
    exact absurd (hbelow store.length (hk _ (by omega))) (by omega)
  obtain ⟨c', hc', hcase⟩ := Consumer.consume_cases (contentOf store) arrived fun d hd =>
    carries_store h d (harrived d hd)
  rw [hc] at hc'; cases hc'
  rcases hcase with ⟨-, hca, -⟩ | ⟨-, pre, s, post, k, heq, -, hk, -, hout⟩
  · rw [hca.output]
    exact hprefix _ fun i hi => (hca.split i).2 (.inl hi)
  · rw [hout]
    refine hprefix k fun i hi => ?_
    rw [heq]
    exact List.mem_append_left _ ((hk i).1 hi i le_rfl)

namespace Transfer

variable [SegmentNames] {δ α σ β : Type} {x : Parties δ α σ β} {s : Transfer δ σ}

omit [SegmentNames] in
theorem store_populates (x : Parties δ α σ β) : Producer.Populates x.producer x.input x.store := by
  rw [x.stored]
  exact Producer.populateStore_populates x.producer x.input

/-- Everything under way is of the store, and so was everything that the consumer was handed. -/
structure Genuine (x : Parties δ α σ β) (s : Transfer δ σ) : Prop where
  packets : ∀ d ∈ s.packets, d ∈ x.store
  validating : ∀ d ∈ s.validating, d ∈ x.store
  consumed : ∃ arrived, (∀ d ∈ arrived, d ∈ x.store) ∧ Consumer.consume .start arrived = .ok s.consumer
  unNacked : ∀ e, s.thrown ≠ some (.applicationNack e)

/-- The packets that the pipeline has handed on. -/
def handedOn (x : Parties δ α σ β) (data : Data) (es : List β) : List Data :=
  x.pipeline.machine.log x.pipeline.handed (x.pipeline.run data) es

/-- Where a transfer is that goes on: discovering, or fetching with `arrived` handed to the consumer. -/
inductive Phase (x : Parties δ α σ β) (s : Transfer δ σ) (arrived : List Data) : Prop
  | discovering (pipeline : s.pipeline = none) (signals : x.discovery.signals s.discover = [])
      (arrived : arrived = []) (validating : s.validating = [])
  | fetching (p : σ) (data : Data) (es : List β) (pipeline : s.pipeline = some p)
      (signals : x.discovery.signals s.discover ≠ []) (data_mem : data ∈ x.store)
      (reached : x.pipeline.Reached x.store data es p)
      (perm : (arrived ++ s.validating).Perm (data :: handedOn x data es))

structure Tracked (x : Parties δ α σ β) (s : Transfer δ σ) (seen : List NamedData) (arrived : List Data) : Prop where
  discovery : x.discovery.Inv seen s.discover
  seen : ∀ nd ∈ seen, ∃ d ∈ s.packets, namedData d = nd
  consumed : Consumer.consume .start arrived = .ok s.consumer
  phase : Phase x s arrived

def Inv (x : Parties δ α σ β) (s : Transfer δ σ) : Prop :=
  Genuine x s ∧ (s.thrown = none → ∃ seen arrived, Tracked x s seen arrived)

theorem inv_start (x : Parties δ α σ β) : Inv x (start x) := by
  refine ⟨⟨fun _ hd => (List.not_mem_nil hd).elim, fun _ hd => (List.not_mem_nil hd).elim,
    ⟨[], fun _ hd => (List.not_mem_nil hd).elim, rfl⟩, nofun⟩, fun _ => ⟨[], [], ?_⟩⟩
  exact ⟨x.discovery.inv_run, fun _ hd => (List.not_mem_nil hd).elim, rfl,
    .discovering rfl x.discovery.signals_run rfl rfl⟩

/-! ## One step -/

/-- An exception leaves everything else as it is. -/
theorem Genuine.fail (h : Genuine x s) (reason : String) {ds : List Data} (hds : ∀ d ∈ ds, d ∈ s.validating) :
    Inv x (onFailure reason { s with validating := ds }) :=
  ⟨⟨h.packets, fun d hd => h.validating d (hds d hd), h.consumed, nofun⟩, nofun⟩

theorem inv_interest (h : Inv x s) (interest : Interest) : Inv x (step x s (.interest interest)) := by
  obtain ⟨hg, ht⟩ := h
  refine ⟨⟨fun d hd => ?_, hg.validating, hg.consumed, hg.unNacked⟩, fun hn => ?_⟩
  · rcases List.mem_append.1 hd with hd | hd
    · exact hg.packets d hd
    · exact Producer.mem_store_of_onInterest (Option.mem_toList.1 hd)
  · obtain ⟨seen, arrived, htr⟩ := ht hn
    refine ⟨seen, arrived, htr.discovery, fun nd hnd => ?_, htr.consumed, ?_⟩
    · obtain ⟨d, hd, heq⟩ := htr.seen nd hnd
      exact ⟨d, List.mem_append_left _ hd, heq⟩
    · cases htr.phase with
      | discovering pipeline signals arrived validating => exact .discovering pipeline signals arrived validating
      | fetching p data es pipeline signals data_mem reached perm =>
        exact .fetching p data es pipeline signals data_mem reached perm

theorem inv_rejected (h : Inv x s) (d : Data) (reason : String) : Inv x (step x s (.rejected d reason)) :=
  h.1.fail reason fun _ hd => List.mem_of_mem_erase hd

theorem inv_failure (h : Inv x s) (reason : String) : Inv x (step x s (.failure reason)) :=
  h.1.fail reason fun _ hd => hd

omit [SegmentNames] in
theorem Genuine.validate (h : Genuine x s) {ds : List Data} (hds : ∀ d ∈ ds, d ∈ x.store) (p : Option σ) :
    Genuine x { validate ds s with pipeline := p } :=
  ⟨h.packets, fun d hd => (List.mem_append.1 hd).elim (h.validating d) (hds d), h.consumed, h.unNacked⟩

omit [SegmentNames] in
theorem handed_mem_store (hg : Genuine x s) {p : σ} {e : β} (hpackets : ∀ d ∈ x.pipeline.packet e, d ∈ s.packets) :
    ∀ d ∈ x.pipeline.handed p e, d ∈ x.store :=
  fun d hd => hg.packets d (hpackets d (x.pipeline.mem_handed hd))

theorem step_pipeline {p : σ} (hp : s.pipeline = some p) (e : β) : step x s (.pipeline e) =
    { validate (x.pipeline.handed p e) s with pipeline := some (x.pipeline.machine.step p e) } := by
  simp only [step, hp]

theorem inv_pipeline (h : Inv x s) {e : β} (he : enabled x s (.pipeline e)) : Inv x (step x s (.pipeline e)) := by
  obtain ⟨hg, ht⟩ := h
  obtain ⟨hnone, hcancel, p, hmem, hen, hpackets⟩ := he
  have hp : s.pipeline = some p := hmem
  rw [step_pipeline hp]
  refine ⟨hg.validate (handed_mem_store hg hpackets) _, fun _ => ?_⟩
  obtain ⟨seen, arrived, htr⟩ := ht hnone
  refine ⟨seen, arrived, htr.discovery, htr.seen, htr.consumed, ?_⟩
  cases htr.phase with
  | discovering pipeline => rw [hp] at pipeline; cases pipeline
  | fetching p' data es pipeline signals data_mem reached perm =>
    rw [hp] at pipeline; cases pipeline
    refine .fetching _ data (es ++ [e]) rfl signals data_mem
      (reached.step hen hcancel fun d hd => hg.packets d (hpackets d hd)) ?_
    have hlog : handedOn x data (es ++ [e]) = handedOn x data es ++ x.pipeline.handed p e := by
      simp [handedOn, Machine.log_append, Machine.log, reached.exec]
    rw [hlog]
    show (arrived ++ (s.validating ++ x.pipeline.handed p e)).Perm _
    rw [← List.append_assoc, ← List.cons_append]
    exact perm.append_right _

omit [SegmentNames] in
/-- A packet of the store is no application-level Nack. -/
theorem onDataValidated_genuine {d : Data} (hd : d ∈ x.store) : ∃ c, s.consumer.onDataValidated d = .ok c := by
  refine ⟨_, Consumer.onDataValidated_ok ?_⟩
  rw [((store_populates x).plain d hd).2]
  decide

/-- It is the next one that the consumer gets. -/
theorem step_validated {d : Data} (hd : d ∈ x.store) : ∃ c, s.consumer.onDataValidated d = .ok c ∧
    step x s (.validated d) = { s with validating := s.validating.erase d, consumer := c } := by
  obtain ⟨c, hc⟩ := onDataValidated_genuine (s := s) hd
  exact ⟨c, hc, by simp only [step, onDataValidated, hc]⟩

theorem inv_validated (h : Inv x s) {d : Data} (he : enabled x s (.validated d)) : Inv x (step x s (.validated d)) := by
  obtain ⟨hg, ht⟩ := h
  obtain ⟨hnone, hd⟩ := he
  obtain ⟨c, hok, hstep⟩ := step_validated (x := x) (s := s) (hg.validating d hd)
  have hconsume : ∀ arrived, Consumer.consume .start arrived = .ok s.consumer →
      Consumer.consume .start (arrived ++ [d]) = .ok c := by
    intro arrived hc
    unfold Consumer.consume at hc ⊢
    rw [List.foldlM_append, hc]
    simp only [List.foldlM_cons, List.foldlM_nil, bind, Except.bind, hok]
    rfl
  obtain ⟨arrived, harrived, hc⟩ := hg.consumed
  rw [hstep]
  refine ⟨⟨hg.packets, fun d' hd' => hg.validating d' (List.mem_of_mem_erase hd'),
    ⟨arrived ++ [d], fun d' hd' => ?_, hconsume arrived hc⟩, hg.unNacked⟩, fun _ => ?_⟩
  · rcases List.mem_append.1 hd' with hd' | hd'
    · exact harrived d' hd'
    · rw [List.mem_singleton.1 hd']
      exact hg.validating d hd
  · obtain ⟨seen, arrived', htr⟩ := ht hnone
    refine ⟨seen, arrived' ++ [d], htr.discovery, htr.seen, hconsume arrived' htr.consumed, ?_⟩
    cases htr.phase with
    | discovering pipeline signals arrived validating => rw [validating] at hd; cases hd
    | fetching p data es pipeline signals data_mem reached perm =>
      refine .fetching p data es pipeline signals data_mem reached (List.Perm.trans ?_ perm)
      rw [List.append_assoc, List.singleton_append]
      exact (List.perm_cons_erase hd).symm.append_left _

/-- The packet that was signalled is found on the network. -/
theorem signalled_spec {seen : List NamedData} (hseen : ∀ nd ∈ seen, ∃ d ∈ s.packets, namedData d = nd) {nd : NamedData}
    (hnd : nd ∈ seen) : ∃ d ∈ s.packets, s.signalled nd = some d := by
  obtain ⟨d, hd, heq⟩ := hseen nd hnd
  have hsome : (s.signalled nd).isSome = true := List.find?_isSome.2 ⟨d, hd, by simpa using heq⟩
  obtain ⟨d', hd'⟩ := Option.isSome_iff_exists.1 hsome
  exact ⟨d', List.mem_of_find?_eq_some hd', hd'⟩

/-- What an event of the discovery does: it signals nothing, or ends the program, or, nothing having
been signalled before, starts the pipeline with a packet on the network. -/
inductive Discovered (x : Parties δ α σ β) (s : Transfer δ σ) (discover : δ) : Transfer δ σ → Prop
  | silent (signals : x.discovery.signals discover = x.discovery.signals s.discover) :
    Discovered x s discover { s with discover := discover }
  | failed (reason : String) : Discovered x s discover (onFailure reason { s with discover := discover })
  | started (data : Data) (mem : data ∈ s.packets) (before : x.discovery.signals s.discover = [])
      (signals : x.discovery.signals discover ≠ []) :
    Discovered x s discover (startPipeline x data { s with discover := discover })

theorem step_discovery {seen arrived} (htr : Tracked x s seen arrived) {e : α} (he : enabled x s (.discovery e)) :
    Discovered x s (x.discovery.machine.step s.discover e) (step x s (.discovery e)) ∧
    x.discovery.Inv (seen ++ (x.discovery.packet e).toList) (x.discovery.machine.step s.discover e) ∧
    ∀ nd ∈ seen ++ (x.discovery.packet e).toList, ∃ d ∈ s.packets, namedData d = nd := by
  obtain ⟨-, hen, hpackets⟩ := he
  have hinv := x.discovery.inv_step seen s.discover e htr.discovery hen
  obtain ⟨signals, hsignals⟩ := x.discovery.signals_step seen s.discover e htr.discovery hen
  have honce := x.discovery.once _ _ hinv
  have hseen : ∀ nd ∈ seen ++ (x.discovery.packet e).toList, ∃ d ∈ s.packets, namedData d = nd := by
    intro nd hnd
    rcases List.mem_append.1 hnd with hnd | hnd
    · exact htr.seen nd hnd
    · exact hpackets nd (Option.mem_toList.1 hnd)
  refine ⟨?_, hinv, hseen⟩
  let s' : Transfer δ σ := { s with discover := x.discovery.machine.step s.discover e }
  have hstep : step x s (.discovery e) = signals.foldl (fun s signal => handleSignal x signal s) s' := by
    simp only [step, ← hsignals, List.drop_left]
    rfl
  rw [hstep]
  rw [← hsignals, List.length_append] at honce
  match signals, hsignals, honce with
  | [], hsignals, _ => exact .silent (by rw [← hsignals, List.append_nil])
  | [.failure reason], _, _ => exact .failed reason
  | [.success nd], hsignals, honce =>
    have hnd := x.discovery.success _ _ nd hinv
      (by rw [← hsignals]; exact List.mem_append_right _ (List.mem_singleton_self _))
    obtain ⟨data, hdata, hfound⟩ := signalled_spec (s := s') hseen hnd
    have hhandle : handleSignal x (.success nd) s' = startPipeline x data s' := by
      simp only [handleSignal, hfound]
    show Discovered x s _ (handleSignal x (.success nd) s')
    rw [hhandle]
    refine .started data hdata (List.eq_nil_of_length_eq_zero ?_) ?_
    · rw [List.length_singleton] at honce
      omega
    · rw [← hsignals]
      exact List.append_ne_nil_of_right_ne_nil _ (List.cons_ne_nil _ _)

theorem inv_discovery (h : Inv x s) {e : α} (he : enabled x s (.discovery e)) : Inv x (step x s (.discovery e)) := by
  obtain ⟨hg, ht⟩ := h
  obtain ⟨seen, arrived, htr⟩ := ht he.1
  obtain ⟨hdiscovered, hinv, hseen⟩ := step_discovery htr he
  have hg' : Genuine x { s with discover := x.discovery.machine.step s.discover e } :=
    ⟨hg.packets, hg.validating, hg.consumed, hg.unNacked⟩
  generalize step x s (.discovery e) = s' at hdiscovered
  cases hdiscovered with
  | silent signals =>
    refine ⟨hg', fun _ => ⟨_, arrived, hinv, hseen, htr.consumed, ?_⟩⟩
    cases htr.phase with
    | discovering pipeline nil arrived validating => exact .discovering pipeline (signals.trans nil) arrived validating
    | fetching p data es pipeline some data_mem reached perm =>
      exact .fetching p data es pipeline (fun hnil => some (signals.symm.trans hnil)) data_mem reached perm
  | failed reason => exact hg'.fail reason fun _ hd => hd
  | started data mem before signals =>
    refine ⟨hg'.validate (fun d hd => ?_) _, fun _ => ⟨_, arrived, hinv, hseen, htr.consumed, ?_⟩⟩
    · rw [List.mem_singleton.1 hd]
      exact hg.packets data mem
    · cases htr.phase with
      | discovering pipeline nil harrived hvalidating =>
        refine .fetching _ data [] rfl signals (hg.packets data mem) (.start data) ?_
        show (arrived ++ (s.validating ++ [data])).Perm _
        rw [harrived, hvalidating]
        exact List.Perm.refl _
      | fetching p data es pipeline some => exact absurd before some

theorem inv_step (h : Inv x s) {e : Event α β} (he : enabled x s e) : Inv x (step x s e) := by
  cases e with
  | interest interest => exact inv_interest h interest
  | discovery e => exact inv_discovery h he
  | pipeline e => exact inv_pipeline h he
  | validated d => exact inv_validated h he
  | rejected d reason => exact inv_rejected h d reason
  | failure reason => exact inv_failure h reason

theorem inv_runs {es : List (Event α β)} (hr : (machine x).Runs (start x) es) :
    (machine x).Always (Inv x) (start x) es :=
  Machine.always_of_step (fun _ _ hs he => inv_step hs he) (inv_start x) hr

/-- In every run, at every moment, catchunks has written an initial part of what putchunks was given,
and no packet has been taken for an application-level Nack. -/
theorem writes_prefix (x : Parties δ α σ β) (es : List (Event α β)) (hr : (machine x).Runs (start x) es) :
    (machine x).Always (fun s => s.consumer.outputStream <+: x.input ∧ ∀ e, s.thrown ≠ some (.applicationNack e))
      (start x) es := by
  refine (inv_runs hr).imp fun s hs => ⟨?_, hs.1.unNacked⟩
  obtain ⟨arrived, harrived, hc⟩ := hs.1.consumed
  exact Consumer.output_prefix (store_populates x) harrived hc

end Transfer

/-! ## Two octets -/

namespace Transfer

/-- A producer of segments of one octet. -/
def oneOctetSegments : Producer := ⟨["video", [0xFD, 5]], 10000, 1⟩

def firstSegment : Data := ⟨["video", [0xFD, 5]], 0, .blob, 10000, [65], some 1⟩

def secondSegment : Data := ⟨["video", [0xFD, 5]], 1, .blob, 10000, [66], some 1⟩

theorem stored_two : [firstSegment, secondSegment] = oneOctetSegments.populateStore ⟨[65, 66], true⟩ := by
  unfold Producer.populateStore
  rw [Producer.readLoop, Producer.readLoop, Producer.readLoop, Producer.readLoop]
  rfl

local instance videoNames : SegmentNames := documentedNames

def discoveryOptions : DiscoveryOptions := ⟨4000, false, 3, 1⟩

/-- Two octets, fetched by the pipeline with a fixed window of two. -/
def video : Parties DiscoverVersionFixed DiscoverVersionFixed.Event FixedWindow FixedWindow.Event where
  producer := oneOctetSegments
  input := [65, 66]
  store := [firstSegment, secondSegment]
  stored := stored_two
  matchesData _ _ := true
  discovery := fixed ["video", [0xFD, 5]] discoveryOptions
  pipeline := fixedWindow 2

/-- The first segment is discovered, the second one is validated first. -/
def videoRun : List (Event DiscoverVersionFixed.Event FixedWindow.Event) :=
  let first := DiscoverVersionFixed.firstInterest ["video", [0xFD, 5]] discoveryOptions
  [.interest first,
   .discovery (.data first (namedData firstSegment)),
   .interest (segmentInterest ["video", [0xFD, 5]] 4000 false 1),
   .pipeline (.data 0 secondSegment),
   .validated secondSegment,
   .validated firstSegment]

theorem writes_prefix_video :
    (machine video).Always (fun s => s.consumer.outputStream <+: [65, 66] ∧ ∀ e, s.thrown ≠ some (.applicationNack e))
      (start video) videoRun :=
  writes_prefix video videoRun (by decide)

end Transfer

end NdnTools.Chunks
