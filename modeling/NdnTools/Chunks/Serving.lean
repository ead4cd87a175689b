/-
How the producer of putchunks answers Interests (`producer.cpp`): an Interest for a segment of the
version gets that segment if there is one, and any other Interest the first segment if it matches.

The names of the packets and `Interest::matchesData` are the library's. Of the former the model takes
what `appendSegment` promises, that the number can be read back; the latter is a parameter.
-/
import NdnTools.Chunks.RoundTrip
import NdnTools.Chunks.Discovery.Model

namespace NdnTools.Chunks

/-- The conventions together with `Component::fromSegment`, for the numbers it takes. -/
class SegmentNames extends Conventions where
  fromSegment : ℕ → Component
  segment_fromSegment : ∀ n < 2 ^ 64, segment (fromSegment n) = some n

section Names

variable [SegmentNames]

/-- `appendSegment`. -/
def appendSegment (name : Name) (segmentNo : ℕ) : Name := name ++ [SegmentNames.fromSegment segmentNo]

/-- `Data::getName`. -/
def getName (d : Data) : Name := appendSegment d.versionedPrefix d.segmentNo

/-- What version discovery sees of a packet. -/
def namedData (d : Data) : NamedData := ⟨getName d, d.content⟩

/-- The Interest of the pipelines for a segment. -/
def segmentInterest (versionedPrefix : Name) (interestLifetime : ℕ) (mustBeFresh : Bool) (segmentNo : ℕ) :
    Interest where
  name := appendSegment versionedPrefix segmentNo
  interestLifetime := interestLifetime
  mustBeFresh := mustBeFresh
  minSuffixComponents := 0
  maxSuffixComponents := 1
  childSelector := 0
  exclude := .empty

/-- The number of the segment of the version that the Interest is for, if it is for one. -/
def Producer.requestedSegment (p : Producer) (interest : Interest) : Option ℕ :=
  if interest.name.length = p.versionedPrefix.length + 1 ∧ p.versionedPrefix <+: interest.name then
    Conventions.segment (interest.name.getLastD [])
  else none

/-- `Producer::onInterest`: the packet that is put, if any. -/
def Producer.onInterest (p : Producer) (matchesData : Interest → Data → Bool) (store : List Data)
    (interest : Interest) : Option Data :=
  match p.requestedSegment interest with
  | some segmentNo => store[segmentNo]?
  | none => store.head?.filter (matchesData interest)

namespace Producer

variable {p : Producer} {matchesData : Interest → Data → Bool} {store : List Data}

/-- Only packets of the store are put. -/
theorem mem_store_of_onInterest {interest : Interest} {d : Data}
    (h : p.onInterest matchesData store interest = some d) : d ∈ store := by
  unfold onInterest at h
  cases hseg : p.requestedSegment interest with
  | some n =>
    rw [hseg] at h
    exact List.mem_of_getElem? h
  | none =>
    rw [hseg] at h
    exact List.mem_of_mem_head? (Option.filter_eq_some_iff.1 h).1

theorem requestedSegment_segmentInterest {lifetime : ℕ} {fresh : Bool} {n : ℕ} (hn : n < 2 ^ 64) :
    p.requestedSegment (segmentInterest p.versionedPrefix lifetime fresh n) = some n := by
  simp [requestedSegment, segmentInterest, appendSegment, SegmentNames.segment_fromSegment n hn]

/-- An Interest of a pipeline gets its segment. -/
theorem onInterest_segmentInterest {lifetime : ℕ} {fresh : Bool} {n : ℕ} (hn : n < 2 ^ 64) :
    p.onInterest matchesData store (segmentInterest p.versionedPrefix lifetime fresh n) = store[n]? := by
  unfold onInterest
  rw [requestedSegment_segmentInterest hn]

end Producer

end Names

/-! ## The conventions in use -/

/-- The octets of `n`, most significant first, `count` of them. -/
def octetsOf : (count n : ℕ) → Bytes
  | 0, _ => []
  | count + 1, n => octetsOf count (n / 256) ++ [UInt8.ofNat n]

theorem length_octetsOf : ∀ count n : ℕ, (octetsOf count n).length = count
  | 0, _ => rfl
  | count + 1, n => by simp [octetsOf, length_octetsOf count]

theorem number_append (octets : Bytes) (octet : UInt8) :
    number (octets ++ [octet]) = number octets * 256 + octet.toNat := by
  induction octets with
  | nil => simp [number]
  | cons o octets ih =>
    simp only [List.cons_append, number, ih, List.length_append, List.length_singleton]
    ring

/-- The octets give the number back. -/
theorem number_octetsOf : ∀ count n : ℕ, n < 256 ^ count → number (octetsOf count n) = n
  | 0, n, h => by
    obtain rfl : n = 0 := by simpa using h
    rfl
  | count + 1, n, h => by
    have hdiv : n / 256 < 256 ^ count := Nat.div_lt_of_lt_mul (by rw [← pow_succ']; exact h)
    have hmod := Nat.div_add_mod n 256
    rw [octetsOf, number_append, number_octetsOf count _ hdiv, UInt8.toNat_ofNat']
    omega

/-- The shortest encoding of a number. -/
def fromNumber (n : ℕ) : Bytes :=
  if n < 2 ^ 8 then octetsOf 1 n
  else if n < 2 ^ 16 then octetsOf 2 n
  else if n < 2 ^ 32 then octetsOf 4 n
  else octetsOf 8 n

theorem nonNegativeInteger_fromNumber {n : ℕ} (hn : n < 2 ^ 64) : nonNegativeInteger (fromNumber n) = some n := by
  have hread : ∀ count, n < 256 ^ count →
      (count = 1 ∨ count = 2 ∧ 2 ^ 8 ≤ n ∨ count = 4 ∧ 2 ^ 16 ≤ n ∨ count = 8 ∧ 2 ^ 32 ≤ n) →
      nonNegativeInteger (octetsOf count n) = some n := by
    intro count hlt hcount
    unfold nonNegativeInteger
    rw [length_octetsOf, number_octetsOf count n hlt, if_pos hcount]
  unfold fromNumber
  split
  next h => exact hread 1 (by omega) (by omega)
  next h1 =>
    split
    next h => exact hread 2 (by omega) (by omega)
    next h2 =>
      split
      next h => exact hread 4 (by omega) (by omega)
      next h4 => exact hread 8 (by omega) (by omega)

/-- The documented conventions, segment numbers written in the shortest encoding. -/
@[reducible] def documentedNames : SegmentNames where
  toConventions := documented
  fromSegment n := 0x00 :: fromNumber n
  segment_fromSegment n hn := by
    show numberWithMarker 0x00 (0x00 :: fromNumber n) = some n
    rw [numberWithMarker, if_pos rfl, nonNegativeInteger_fromNumber hn]

end NdnTools.Chunks
