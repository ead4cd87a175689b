/-
A pointer into a buffer with the number of bytes that are taken to follow it, as a C program keeps the
two: moving the pointer takes from the number, which may go below zero, and nothing checks where it
points. The offsets that are read are kept, so that a limit on them can be stated.
-/
import Mathlib.Data.List.Basic
import Mathlib.Tactic

structure Cursor where
  offset : ℕ
  size : ℤ
  /-- The offsets read so far. -/
  reads : List ℕ
  deriving Repr, DecidableEq

namespace Cursor

/-- At the start of `size` bytes. -/
def start (size : ℕ) : Cursor := ⟨0, size, []⟩

/-- The bytes at the offsets `is` are read. -/
def look (is : List ℕ) (c : Cursor) : Cursor := { c with reads := c.reads ++ is }

def skip (n : ℕ) (c : Cursor) : Cursor := { c with offset := c.offset + n, size := c.size - n }

@[simp] theorem offset_look (is : List ℕ) (c : Cursor) : (c.look is).offset = c.offset := rfl

@[simp] theorem size_look (is : List ℕ) (c : Cursor) : (c.look is).size = c.size := rfl

@[simp] theorem offset_skip (n : ℕ) (c : Cursor) : (c.skip n).offset = c.offset + n := rfl

@[simp] theorem size_skip (n : ℕ) (c : Cursor) : (c.skip n).size = c.size - n := rfl

/-- The bytes that are taken to follow end at `last`. -/
def EndsAt (last : ℕ) (c : Cursor) : Prop := (c.offset : ℤ) + c.size = last

/-- Nothing was read from `limit` on. -/
def Within (limit : ℕ) (c : Cursor) : Prop := ∀ i ∈ c.reads, i < limit

theorem endsAt_start (size : ℕ) : (start size).EndsAt size := by simp [EndsAt, start]

theorem within_start (limit size : ℕ) : (start size).Within limit := by simp [Within, start]

variable {c : Cursor} {limit last : ℕ}

@[simp] theorem endsAt_look_iff {is : List ℕ} : (c.look is).EndsAt last ↔ c.EndsAt last := Iff.rfl

/-- The end stays where it is when the pointer moves. -/
@[simp] theorem endsAt_skip_iff {n : ℕ} : (c.skip n).EndsAt last ↔ c.EndsAt last := by
  simp only [EndsAt, offset_skip, size_skip]
  omega

@[simp] theorem within_skip_iff {n : ℕ} : (c.skip n).Within limit ↔ c.Within limit := Iff.rfl

@[simp] theorem within_look_iff {is : List ℕ} : (c.look is).Within limit ↔ c.Within limit ∧ ∀ i ∈ is, i < limit := by
  simp only [Within, look, List.mem_append]
  exact ⟨fun h => ⟨fun i hi => h i (.inl hi), fun i hi => h i (.inr hi)⟩, fun h i hi => hi.elim (h.1 i) (h.2 i)⟩

/-- The bytes that follow end where the pointer and the end leave room for them. -/
theorem EndsAt.size_nonneg_iff (h : c.EndsAt last) : 0 ≤ c.size ↔ c.offset ≤ last := by
  unfold EndsAt at h
  omega

end Cursor
