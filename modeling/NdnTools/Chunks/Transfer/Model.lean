/-
putchunks and catchunks at work together (`producer.cpp`, `consumer.cpp`, `ndncatchunks.cpp`), for any
discovery and any pipeline. The producer answers Interests, those of catchunks and of anybody else,
and what it has put stays on the network: a packet may reach catchunks never, late, out of order and
any number of times. The validator is asked about every packet and answers later, in any order.

An exception thrown by the consumer ends catchunks, but not the producer.
-/
import NdnTools.Chunks.Serving
import NdnTools.Chunks.Transfer.Parts

namespace NdnTools.Chunks

/-- What `Consumer` throws. -/
inductive CatchunksError
  | applicationNack (e : ApplicationNackError)
  | failure (reason : String)
  deriving Repr, DecidableEq

/-- The producer with what it has made of its input, and the parts catchunks is made of. -/
structure Parties (δ α σ β : Type) where
  producer : Producer
  input : Bytes
  store : List Data
  stored : store = producer.populateStore ⟨input, true⟩
  matchesData : Interest → Data → Bool
  discovery : DiscoveryClass δ α
  pipeline : PipelineClass σ β

structure Transfer (δ σ : Type) where
  /-- The packets the producer has put. -/
  packets : List Data
  discover : δ
  /-- The pipeline, once it runs. -/
  pipeline : Option σ
  consumer : Consumer
  /-- The packets handed to the validator that it has not answered. -/
  validating : List Data
  thrown : Option CatchunksError

namespace Transfer

variable {δ α σ β : Type} (x : Parties δ α σ β)

/-- What can happen: the producer receives an Interest, the discovery or the pipeline meets one of its
events, the validator answers, or the failure that a pipeline has posted is carried out. -/
inductive Event (α β : Type)
  | interest (interest : Interest)
  | discovery (e : α)
  | pipeline (e : β)
  | validated (d : Data)
  | rejected (d : Data) (reason : String)
  | failure (reason : String)
  deriving Repr, DecidableEq

/-- `Consumer::run`: the discovery is started. -/
def start : Transfer δ σ where
  packets := []
  discover := x.discovery.run
  pipeline := none
  consumer := .start
  validating := []
  thrown := none

/-- `m_validator.validate`. -/
def validate (ds : List Data) (s : Transfer δ σ) : Transfer δ σ := { s with validating := s.validating ++ ds }

/-- `Consumer::startPipeline`. -/
def startPipeline (data : Data) (s : Transfer δ σ) : Transfer δ σ :=
  { validate [data] s with pipeline := some (x.pipeline.run data) }

/-- `Consumer::onFailure`. -/
def onFailure (reason : String) (s : Transfer δ σ) : Transfer δ σ := { s with thrown := some (.failure reason) }

/-- `Consumer::onDataValidated`. -/
def onDataValidated (data : Data) (s : Transfer δ σ) : Transfer δ σ :=
  match s.consumer.onDataValidated data with
  | .ok consumer => { s with consumer := consumer }
  | .error e =>
    { s with
      pipeline := s.pipeline.map fun p => x.pipeline.machine.step p x.pipeline.cancel
      thrown := some (.applicationNack e) }

section Names

variable [SegmentNames]

/-- The packet on the network that a discovery has signalled. -/
def signalled (nd : NamedData) (s : Transfer δ σ) : Option Data := s.packets.find? fun d => namedData d = nd

/-- The callbacks connected to the discovery's signals. -/
def handleSignal (signal : Signal) (s : Transfer δ σ) : Transfer δ σ :=
  match signal with
  | .success nd =>
    match s.signalled nd with
    | some data => startPipeline x data s
    | none => s
  | .failure reason => onFailure reason s

def step (s : Transfer δ σ) : Event α β → Transfer δ σ
  | .interest interest =>
    { s with packets := s.packets ++ (x.producer.onInterest x.matchesData x.store interest).toList }
  | .discovery e =>
    let discover := x.discovery.machine.step s.discover e
    let signals := (x.discovery.signals discover).drop (x.discovery.signals s.discover).length
    signals.foldl (fun s signal => handleSignal x signal s) { s with discover := discover }
  | .pipeline e =>
    match s.pipeline with
    | none => s
    | some p => { validate (x.pipeline.handed p e) s with pipeline := some (x.pipeline.machine.step p e) }
  | .validated d => onDataValidated x d { s with validating := s.validating.erase d }
  | .rejected d reason => onFailure reason { s with validating := s.validating.erase d }
  | .failure reason => onFailure reason s

/-- Catchunks takes no step after an exception. Packets come from the network, the validator answers
what it was asked, only a failure that was posted is carried out, and nobody else cancels the
pipeline. -/
def enabled (s : Transfer δ σ) : Event α β → Prop
  | .interest _ => True
  | .discovery e => s.thrown = none ∧ x.discovery.machine.enabled s.discover e ∧
    ∀ nd ∈ x.discovery.packet e, ∃ d ∈ s.packets, namedData d = nd
  | .pipeline e => s.thrown = none ∧ x.pipeline.isCancel e = false ∧ ∃ p ∈ s.pipeline,
    x.pipeline.machine.enabled p e ∧ ∀ d ∈ x.pipeline.packet e, d ∈ s.packets
  | .validated d => s.thrown = none ∧ d ∈ s.validating
  | .rejected d _ => s.thrown = none ∧ d ∈ s.validating
  | .failure reason => s.thrown = none ∧ ∃ p ∈ s.pipeline, reason ∈ (x.pipeline.base p).failures

instance (s : Transfer δ σ) (e : Event α β) : Decidable (enabled x s e) := by
  cases e <;> unfold enabled <;> infer_instance

def machine : Machine (Transfer δ σ) (Event α β) := ⟨enabled x, step x⟩

instance (s : Transfer δ σ) (e : Event α β) : Decidable ((machine x).enabled s e) :=
  inferInstanceAs (Decidable (enabled x s e))

end Names

end Transfer

end NdnTools.Chunks
