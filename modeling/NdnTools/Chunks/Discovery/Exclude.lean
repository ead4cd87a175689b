/-
Name components as version discovery sees them: the naming conventions tell versions and segment
numbers from other components, and an Exclude filter lists components in their canonical order.

The conventions are a parameter. `documented` are the ones in use: a marker octet followed by the
number in its shortest encoding, and shorter components before longer ones.
-/
import NdnTools.Packet
import Mathlib.Tactic

namespace NdnTools.Chunks

/-- The naming conventions, the canonical order and the text form of a name. Discovery relies on this
much: the order is a total preorder, and it orders version components by their numbers. -/
class Conventions where
  /-- `isVersion` and `toVersion`. -/
  version : Component → Option ℕ
  /-- `isSegment` and `toSegment`. -/
  segment : Component → Option ℕ
  toUri : Name → String
  le : Component → Component → Bool
  le_total : ∀ a b, le a b ∨ le b a
  le_trans : ∀ a b c, le a b → le b c → le a c
  version_mono : ∀ a b v w, le a b → version a = some v → version b = some w → v ≤ w

/-- An Exclude filter: everything up to one of `before`, and single components. -/
structure Exclude where
  before : List Component
  ones : List Component
  deriving Repr, DecidableEq

namespace Exclude

variable [Conventions]

def empty : Exclude := ⟨[], []⟩

def isExcluded (exclude : Exclude) (c : Component) : Bool :=
  exclude.before.any (Conventions.le c) || exclude.ones.contains c

/-- `excludeBefore`: everything up to `c`, itself included. -/
def excludeBefore (c : Component) (exclude : Exclude) : Exclude :=
  { exclude with before := c :: exclude.before }

def excludeOne (c : Component) (exclude : Exclude) : Exclude :=
  if exclude.isExcluded c then exclude else { exclude with ones := exclude.ones ++ [c] }

/-- The loop over the ranges of an Exclude made of single components. -/
def excludeAll (exclude strays : Exclude) : Exclude :=
  strays.ones.foldl (fun exclude c => exclude.excludeOne c) exclude

theorem isExcluded_iff {exclude : Exclude} {x : Component} :
    exclude.isExcluded x = true ↔ (∃ c ∈ exclude.before, Conventions.le x c = true) ∨ x ∈ exclude.ones := by
  simp [isExcluded]

@[simp] theorem not_isExcluded_empty (x : Component) : empty.isExcluded x = false := rfl

theorem isExcluded_excludeBefore {exclude : Exclude} {c x : Component} :
    (exclude.excludeBefore c).isExcluded x = true ↔ Conventions.le x c = true ∨ exclude.isExcluded x = true := by
  simp [isExcluded_iff, excludeBefore, or_assoc]

theorem isExcluded_excludeOne {exclude : Exclude} {c x : Component} :
    (exclude.excludeOne c).isExcluded x = true ↔ exclude.isExcluded x = true ∨ x = c := by
  unfold excludeOne
  split
  next hc =>
    constructor
    · exact Or.inl
    · rintro (hx | rfl)
      · exact hx
      · exact hc
  next => simp [isExcluded_iff, or_assoc]

theorem isExcluded_excludeAll {exclude strays : Exclude} {x : Component} :
    (exclude.excludeAll strays).isExcluded x = true ↔ exclude.isExcluded x = true ∨ x ∈ strays.ones := by
  unfold excludeAll
  induction strays.ones generalizing exclude with
  | nil => simp
  | cons c ones ih => simp [ih, isExcluded_excludeOne, or_assoc]

end Exclude

/-! ## The conventions in use -/

/-- The number whose octets, most significant first, are `octets`. -/
def number : Bytes → ℕ
  | [] => 0
  | octet :: octets => octet.toNat * 256 ^ octets.length + number octets

/-- A number in the shortest of the four encodings of a non-negative integer. -/
def nonNegativeInteger (octets : Bytes) : Option ℕ :=
  if octets.length = 1 ∨ octets.length = 2 ∧ 2 ^ 8 ≤ number octets ∨
      octets.length = 4 ∧ 2 ^ 16 ≤ number octets ∨ octets.length = 8 ∧ 2 ^ 32 ≤ number octets then
    some (number octets)
  else none

/-- A component that consists of the octet `marker` and a number. -/
def numberWithMarker (marker : UInt8) : Component → Option ℕ
  | [] => none
  | octet :: octets => if octet = marker then nonNegativeInteger octets else none

/-- The canonical order: by length, then octet by octet. -/
def canonicalKey (c : Component) : ℕ ×ₗ ℕ := toLex (c.length, number c)

theorem number_lt (octets : Bytes) : number octets < 256 ^ octets.length := by
  induction octets with
  | nil => simp [number]
  | cons octet octets ih =>
    have hoctet : octet.toNat + 1 ≤ 256 := octet.toNat_lt
    calc number (octet :: octets) < octet.toNat * 256 ^ octets.length + 256 ^ octets.length := by
          simpa [number] using ih
      _ = (octet.toNat + 1) * 256 ^ octets.length := by ring
      _ ≤ 256 * 256 ^ octets.length := Nat.mul_le_mul_right _ hoctet
      _ = 256 ^ (octet :: octets).length := by rw [List.length_cons, pow_succ, mul_comm]

/-- Of two numbers in their shortest encodings the one with fewer octets is smaller. -/
theorem number_lt_of_length {a b : Bytes} {v w : ℕ} (ha : nonNegativeInteger a = some v)
    (hb : nonNegativeInteger b = some w) (hlen : a.length < b.length) : v < w := by
  have hlt := number_lt a
  unfold nonNegativeInteger at ha hb
  split at ha
  · split at hb
    · simp only [Option.some.injEq] at ha hb
      subst ha hb
      rename_i hsa hsb
      rcases hsa with h | ⟨h, -⟩ | ⟨h, -⟩ | ⟨h, -⟩ <;> rw [h] at hlt hlen <;> omega
    · simp at hb
  · simp at ha

theorem numberWithMarker_eq_some {marker : UInt8} {c : Component} {v : ℕ}
    (h : numberWithMarker marker c = some v) :
    ∃ octets, c = marker :: octets ∧ nonNegativeInteger octets = some v ∧ number octets = v := by
  cases c with
  | nil => simp [numberWithMarker] at h
  | cons octet octets =>
    simp only [numberWithMarker] at h
    split at h
    next hm =>
      subst hm
      refine ⟨octets, rfl, h, ?_⟩
      simp only [nonNegativeInteger] at h
      split at h
      · simpa using h
      · simp at h
    next => simp at h

/-- The canonical order orders numbered components by their numbers. -/
theorem le_of_canonicalKey_le {marker : UInt8} {a b : Component} {v w : ℕ}
    (hle : canonicalKey a ≤ canonicalKey b) (ha : numberWithMarker marker a = some v)
    (hb : numberWithMarker marker b = some w) : v ≤ w := by
  obtain ⟨x, rfl, hx, rfl⟩ := numberWithMarker_eq_some ha
  obtain ⟨y, rfl, hy, rfl⟩ := numberWithMarker_eq_some hb
  rcases Prod.Lex.le_iff.1 hle with hlen | ⟨hlen, hnum⟩
  · exact (number_lt_of_length hx hy (by simpa [canonicalKey] using hlen)).le
  · have hlen' : x.length = y.length := by simpa [canonicalKey] using hlen
    simpa [canonicalKey, number, hlen'] using hnum

/-- The documented conventions: marker octets 0xFD for versions and 0x00 for segments. -/
@[reducible] def documented : Conventions where
  version := numberWithMarker 0xFD
  segment := numberWithMarker 0x00
  toUri name := "/" ++ "/".intercalate (name.map toString)
  le a b := canonicalKey a ≤ canonicalKey b
  le_total a b := by simpa using le_total (canonicalKey a) (canonicalKey b)
  le_trans a b c hab hbc := by simpa using le_trans (of_decide_eq_true hab) (of_decide_eq_true hbc)
  version_mono _ _ _ _ hle ha hb := le_of_canonicalKey_le (of_decide_eq_true hle) ha hb

end NdnTools.Chunks
