/-
What the Wireshark dissector uses of Lua and of the library it runs in. A number is an integer; one read
from eight octets is a `UInt64` object, with which arithmetic and comparisons also work, but which is
equal to no number and cannot index a buffer. The version of the language is 5.2, in which a comparison
of an object with a number asks the object.
-/
import NdnTools.Lib.Tlv
import NdnTools.Packet

namespace NdnTools.Dissector

open Tlv (bigEndian)

/-- Why a script stops; the last is no error of Lua but a loop cut off. -/
inductive LuaError
  | numberExpected
  | outOfBounds
  | indexNil
  | concatNil
  | outOfFuel
  deriving Repr, DecidableEq

inductive Num
  | number (n : ℤ)
  | uint64 (n : UInt64)
  deriving Repr, DecidableEq

namespace Num

instance : Coe ℕ Num := ⟨fun n => .number n⟩

instance (n : ℕ) : OfNat Num n := ⟨.number n⟩

/-- The object that a number becomes beside another. -/
def toUInt64 : Num → UInt64
  | number n => UInt64.ofInt n
  | uint64 n => n

def toNat : Num → ℕ
  | number n => n.toNat
  | uint64 n => n.toNat

def toString : Num → String
  | number n => ToString.toString n
  | uint64 n => ToString.toString n.toNat

instance : Add Num where
  add
    | number a, number b => number (a + b)
    | a, b => uint64 (a.toUInt64 + b.toUInt64)

instance : Sub Num where
  sub
    | number a, number b => number (a - b)
    | a, b => uint64 (a.toUInt64 - b.toUInt64)

protected def lt : Num → Num → Prop
  | number a, number b => a < b
  | a, b => a.toUInt64 < b.toUInt64

protected def le : Num → Num → Prop
  | number a, number b => a ≤ b
  | a, b => a.toUInt64 ≤ b.toUInt64

instance : LT Num := ⟨Num.lt⟩

instance : LE Num := ⟨Num.le⟩

instance : (a b : Num) → Decidable (a < b)
  | number a, number b => inferInstanceAs (Decidable (a < b))
  | number a, uint64 b => inferInstanceAs (Decidable (UInt64.ofInt a < b))
  | uint64 a, number b => inferInstanceAs (Decidable (a < UInt64.ofInt b))
  | uint64 a, uint64 b => inferInstanceAs (Decidable (a < b))

instance : (a b : Num) → Decidable (a ≤ b)
  | number a, number b => inferInstanceAs (Decidable (a ≤ b))
  | number a, uint64 b => inferInstanceAs (Decidable (UInt64.ofInt a ≤ b))
  | uint64 a, number b => inferInstanceAs (Decidable (a ≤ UInt64.ofInt b))
  | uint64 a, uint64 b => inferInstanceAs (Decidable (a ≤ b))

theorem ofInt_natCast (n : ℕ) : UInt64.ofInt n = UInt64.ofNat n := by
  have hmod : ((n : ℤ) % 2 ^ 64).toNat = n % 2 ^ 64 := by omega
  unfold UInt64.ofInt
  rw [hmod]
  exact UInt64.toNat_inj.1 (by simp)

theorem ofInt_sub (a b : ℤ) : UInt64.ofInt (a - b) = UInt64.ofInt a - UInt64.ofInt b := by
  rw [sub_eq_add_neg, UInt64.ofInt_add, UInt64.ofInt_neg, UInt64.sub_eq_add_neg]

@[simp] theorem number_add (a b : ℤ) : number a + number b = number (a + b) := rfl

@[simp] theorem number_sub (a b : ℤ) : number a - number b = number (a - b) := rfl

@[simp] theorem number_add_uint64 (a : ℤ) (b : UInt64) : number a + uint64 b = uint64 (UInt64.ofInt a + b) := rfl

@[simp] theorem number_sub_uint64 (a : ℤ) (b : UInt64) : number a - uint64 b = uint64 (UInt64.ofInt a - b) := rfl

@[simp] theorem number_lt (a b : ℤ) : number a < number b ↔ a < b := Iff.rfl

@[simp] theorem number_le (a b : ℤ) : number a ≤ number b ↔ a ≤ b := Iff.rfl

@[simp] theorem number_le_uint64 (a : ℤ) (b : UInt64) : number a ≤ uint64 b ↔ UInt64.ofInt a ≤ b := Iff.rfl

@[simp] theorem ofNat_eq (n : ℕ) : (OfNat.ofNat n : Num) = number n := rfl

@[simp] theorem toNat_natCast (n : ℕ) : (number n).toNat = n := rfl

theorem number_le_natCast {m n : ℕ} : (m : Num) ≤ (n : Num) ↔ m ≤ n := by
  rw [number_le]
  exact Int.ofNat_le

theorem number_lt_natCast {m n : ℕ} : (m : Num) < (n : Num) ↔ m < n := by
  rw [number_lt]
  exact Int.ofNat_lt

theorem number_pos (n : ℤ) : number n > 0 ↔ 0 < n := Iff.rfl

theorem uint64_pos (n : UInt64) : uint64 n > 0 ↔ n ≠ 0 := by
  change UInt64.ofInt ((0 : ℕ) : ℤ) < n ↔ _
  rw [ofInt_natCast]
  exact UInt64.pos_iff_ne_zero

end Num

/-! ## Buffers -/

/-- A buffer, whose length need not be that of the packet it was captured from. -/
structure Tvb where
  bytes : Bytes
  reportedLen : ℕ
  deriving Repr, DecidableEq

namespace Tvb

def len (tvb : Tvb) : ℕ := tvb.bytes.length

/-- `tvb(offset, size)` -/
def range (tvb : Tvb) : Num → Num → Except LuaError Bytes
  | .number offset, .number size =>
    if 0 ≤ offset ∧ 0 ≤ size ∧ offset + size ≤ tvb.len then .ok ((tvb.bytes.drop offset.toNat).take size.toNat)
    else .error .outOfBounds
  | _, _ => .error .numberExpected

/-- `tvb(offset, size):uint()` -/
def uint (tvb : Tvb) (offset size : Num) : Except LuaError ℕ := do return bigEndian (← tvb.range offset size)

/-- `tvb(offset, 8):uint64()` -/
def uint64 (tvb : Tvb) (offset : Num) : Except LuaError UInt64 := do return UInt64.ofNat (← tvb.uint offset 8)

variable {tvb : Tvb} {o n : ℕ}

theorem range_ok (h : o + n ≤ tvb.len) : tvb.range (o : Num) (n : Num) = .ok ((tvb.bytes.drop o).take n) :=
  if_pos ⟨Int.natCast_nonneg o, Int.natCast_nonneg n, by exact_mod_cast h⟩

theorem uint_ok (h : o + n ≤ tvb.len) :
    tvb.uint (o : Num) (n : Num) = .ok (bigEndian ((tvb.bytes.drop o).take n)) := by
  unfold uint
  rw [range_ok h]
  rfl

theorem uint64_ok (h : o + 8 ≤ tvb.len) :
    tvb.uint64 (o : Num) = .ok (UInt64.ofNat (bigEndian ((tvb.bytes.drop o).take 8))) := by
  unfold uint64
  rw [show (8 : Num) = ((8 : ℕ) : Num) from rfl, uint_ok h]
  rfl

/-- An object is no place in a buffer. -/
theorem uint_uint64 (tvb : Tvb) (o : UInt64) (size : Num) : tvb.uint (.uint64 o) size = .error .numberExpected := by
  cases size <;> rfl

end Tvb

end NdnTools.Dissector
