/-
The part all Interest pipelines of catchunks share (`pipeline-interests.cpp`): what is known about
the content's end, whether the pipeline is stopping, and the two callbacks, as the segments handed
to `onData` and the reasons handed to `onFailure`.
-/
import NdnTools.Packet

namespace NdnTools.Chunks

structure PipelineInterests where
  /-- Valid only if `hasFinalBlockId`. -/
  lastSegmentNo : ℕ
  excludedSegmentNo : ℕ
  hasFinalBlockId : Bool
  isStopping : Bool
  /-- The segments passed to `onData`, in order. -/
  delivered : List ℕ
  /-- The reasons passed to `onFailure`, in order. -/
  failures : List String
  deriving Repr, DecidableEq

namespace PipelineInterests

/-- The constructor followed by the part of `PipelineInterests::run` before `doRun`. -/
def setup (data : Data) : PipelineInterests where
  lastSegmentNo := data.finalBlockId.getD 0
  excludedSegmentNo := data.segmentNo
  hasFinalBlockId := data.finalBlockId.isSome
  isStopping := false
  delivered := []
  failures := []

/-- `PipelineInterests::onData`. -/
def onData (p : PipelineInterests) (data : Data) : PipelineInterests :=
  { p with delivered := p.delivered ++ [data.segmentNo] }

/-- The segment is known to lie after the content. -/
def beyond (p : PipelineInterests) (segNo : ℕ) : Prop := p.hasFinalBlockId = true ∧ p.lastSegmentNo < segNo

instance (p : PipelineInterests) (segNo : ℕ) : Decidable (p.beyond segNo) :=
  inferInstanceAs (Decidable (_ ∧ _))

end PipelineInterests

/-- An empty packet of segment `segNo`, with its FinalBlockId if it has one. -/
def packet (segNo : ℕ) (final : Option ℕ) : Data := ⟨[], segNo, .blob, 0, [], final⟩

/-- All FinalBlockIds are those of a content that ends with segment `last`. -/
def FinalIs (last : ℕ) (d : Data) : Prop := ∀ l, d.finalBlockId = some l → l = last

end NdnTools.Chunks
