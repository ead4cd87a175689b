/-
NDN names and packets, as far as the tools look at them: a name is a list of components, a Data
packet of a segmented object is its versioned name with the segment number, its content and its
FinalBlockId, and a Nack carries a reason.
-/
import Mathlib.Data.List.Basic

namespace NdnTools

/-- The octets of a block's value. -/
abbrev Bytes := List UInt8

/-- A name component: its octets. -/
abbrev Component := Bytes

/-- A component given by its text. -/
instance : Coe String Component := ⟨fun text => text.toUTF8.data.toList⟩

abbrev Name := List Component

/-- `getPrefix(-1)`: the name without its last component. -/
def getPrefix (name : Name) : Name := name.dropLast

/-- The ContentType element of a Data packet. -/
inductive ContentType
  | blob
  | link
  | key
  | nack
  deriving Repr, DecidableEq

/-- A Data packet whose name is `versionedPrefix` followed by a segment number. -/
structure Data where
  versionedPrefix : Name
  segmentNo : ℕ
  contentType : ContentType
  freshnessPeriod : ℕ
  content : Bytes
  finalBlockId : Option ℕ
  deriving Repr, DecidableEq

/-- `lp::NackReason`. -/
inductive NackReason
  | none
  | congestion
  | duplicate
  | noRoute
  deriving Repr, DecidableEq

/-- `operator<<` of a Nack reason. -/
def NackReason.toString : NackReason → String
  | .none => "None"
  | .congestion => "Congestion"
  | .duplicate => "Duplicate"
  | .noRoute => "NoRoute"

end NdnTools
