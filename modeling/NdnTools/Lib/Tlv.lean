/-
Type-length-value encoding. A number takes 1, 3, 5 or 9 octets, an integer that is the whole value of
a block takes 1, 2, 4 or 8, and a block is its type, the length of its value and the value, which may in
turn be a sequence of blocks. What is written is read back, from in front of anything else.
-/
import Mathlib.Tactic

namespace Tlv

/-! ## Numbers of a fixed width -/

/-- The value of octets, the first of which weighs most. -/
def bigEndian (octets : List UInt8) : ℕ := octets.foldl (fun n octet => 256 * n + octet.toNat) 0

/-- The last `k` octets of a number. -/
def octets : (k n : ℕ) → List UInt8
  | 0, _ => []
  | k + 1, n => octets k (n / 256) ++ [UInt8.ofNat n]

@[simp] theorem length_octets : ∀ k n : ℕ, (octets k n).length = k
  | 0, _ => rfl
  | k + 1, n => by simp [octets, length_octets k]

theorem bigEndian_concat (bs : List UInt8) (b : UInt8) : bigEndian (bs ++ [b]) = 256 * bigEndian bs + b.toNat := by
  unfold bigEndian
  rw [List.foldl_append]
  rfl

theorem bigEndian_lt (bs : List UInt8) : bigEndian bs < 256 ^ bs.length := by
  induction bs using List.reverseRecOn with
  | nil => decide
  | append_singleton bs b ih =>
    have hb := b.toNat_lt
    rw [bigEndian_concat, List.length_append, List.length_singleton, pow_succ]
    omega

theorem bigEndian_octets : ∀ {k n : ℕ}, n < 256 ^ k → bigEndian (octets k n) = n
  | 0, n, h => by
    have hn : n = 0 := by simpa using h
    rw [hn]
    rfl
  | k + 1, n, h => by
    have hdiv : n / 256 < 256 ^ k := by
      rw [pow_succ] at h
      exact Nat.div_lt_of_lt_mul (by rwa [mul_comm] at h)
    unfold octets
    rw [bigEndian_concat, bigEndian_octets hdiv, UInt8.toNat_ofNat']
    omega

/-! ## Numbers of variable size -/

def varNumber (n : ℕ) : List UInt8 :=
  if n < 253 then octets 1 n
  else if n < 2 ^ 16 then 253 :: octets 2 n
  else if n < 2 ^ 32 then 254 :: octets 4 n
  else 255 :: octets 8 n

/-- How many octets follow the first one. -/
def width (first : UInt8) : ℕ := if first < 253 then 0 else if first = 253 then 2 else if first = 254 then 4 else 8

/-- A complete encoding of a number, which need not be the shortest one. -/
inductive IsVarNumber : List UInt8 → ℕ → Prop
  | single {first : UInt8} (lt : first < 253) : IsVarNumber [first] first.toNat
  | wide {first : UInt8} {rest : List UInt8} (ge : ¬ first < 253) (length : rest.length = width first) :
      IsVarNumber (first :: rest) (bigEndian rest)

theorem IsVarNumber.length_pos {code : List UInt8} {n : ℕ} (h : IsVarNumber code n) : 0 < code.length := by
  cases h with
  | single => exact Nat.one_pos
  | wide => exact Nat.succ_pos _

/-- The number in front of some octets, and what follows it. -/
def readVarNumber : List UInt8 → Option (ℕ × List UInt8)
  | [] => none
  | first :: rest =>
    if first < 253 then some (first.toNat, rest)
    else if rest.length < width first then none
    else some (bigEndian (rest.take (width first)), rest.drop (width first))

/-- What is encoded is read. -/
theorem IsVarNumber.read {code : List UInt8} {n : ℕ} (h : IsVarNumber code n) (rest : List UInt8) :
    readVarNumber (code ++ rest) = some (n, rest) := by
  cases h with
  | single lt => exact if_pos lt
  | @wide first octets ge length =>
    have hlen : ¬ (octets ++ rest).length < width first := by
      rw [List.length_append, length]
      omega
    rw [List.cons_append]
    simp only [readVarNumber, if_neg ge, if_neg hlen]
    rw [← length, List.take_left, List.drop_left]

theorem isVarNumber_octets {first : UInt8} (hf : ¬ first < 253) {n : ℕ} (h : n < 256 ^ width first) :
    IsVarNumber (first :: octets (width first) n) n := by
  have hwide := IsVarNumber.wide hf (length_octets (width first) n)
  rwa [bigEndian_octets h] at hwide

/-- The encoding that is written is one. -/
theorem isVarNumber_varNumber {n : ℕ} (h : n < 2 ^ 64) : IsVarNumber (varNumber n) n := by
  unfold varNumber
  split
  · rename_i hn
    have hfirst : (UInt8.ofNat n).toNat = n := by rw [UInt8.toNat_ofNat']; omega
    have hsingle := IsVarNumber.single (UInt8.lt_iff_toNat_lt.2 (by rw [hfirst]; exact hn) : UInt8.ofNat n < 253)
    rwa [hfirst] at hsingle
  · split
    · exact @isVarNumber_octets 253 (by decide) n (by simpa [width] using ‹n < 2 ^ 16›)
    · split
      · exact @isVarNumber_octets 254 (by decide) n (by simpa [width] using ‹n < 2 ^ 32›)
      · exact @isVarNumber_octets 255 (by decide) n (by simpa [width] using h)

/-- A number is read back. -/
theorem readVarNumber_varNumber {n : ℕ} (h : n < 2 ^ 64) (rest : List UInt8) :
    readVarNumber (varNumber n ++ rest) = some (n, rest) :=
  (isVarNumber_varNumber h).read rest

theorem length_varNumber_pos (n : ℕ) : 0 < (varNumber n).length := by
  unfold varNumber
  split
  · simp
  · split
    · simp
    · split <;> simp

/-! ## Integers that are a value -/

def nonNegativeInteger (n : ℕ) : List UInt8 :=
  if n < 2 ^ 8 then octets 1 n
  else if n < 2 ^ 16 then octets 2 n
  else if n < 2 ^ 32 then octets 4 n
  else octets 8 n

def readNonNegativeInteger (value : List UInt8) : Option ℕ :=
  if value.length = 1 ∨ value.length = 2 ∨ value.length = 4 ∨ value.length = 8 then some (bigEndian value) else none

theorem readNonNegativeInteger_octets {k n : ℕ} (hk : k = 1 ∨ k = 2 ∨ k = 4 ∨ k = 8) (h : n < 256 ^ k) :
    readNonNegativeInteger (octets k n) = some n := by
  unfold readNonNegativeInteger
  rw [length_octets, if_pos hk, bigEndian_octets h]

/-- An integer is read back. -/
theorem readNonNegativeInteger_nonNegativeInteger {n : ℕ} (h : n < 2 ^ 64) :
    readNonNegativeInteger (nonNegativeInteger n) = some n := by
  unfold nonNegativeInteger
  split
  · exact readNonNegativeInteger_octets (by decide) (by simpa using ‹n < 2 ^ 8›)
  · split
    · exact readNonNegativeInteger_octets (by decide) (by simpa using ‹n < 2 ^ 16›)
    · split
      · exact readNonNegativeInteger_octets (by decide) (by simpa using ‹n < 2 ^ 32›)
      · exact readNonNegativeInteger_octets (by decide) (by simpa using h)

/-! ## Blocks -/

/-- A block. One that was put together and not encoded yet has no wire. -/
structure Block where
  type : ℕ
  value : List UInt8
  hasWire : Bool := true
  deriving Repr, DecidableEq

/-- The wire of a block. -/
def Block.wire (b : Block) : List UInt8 := varNumber b.type ++ (varNumber b.value.length ++ b.value)

/-- The wires of blocks, one after the other. -/
def wires (bs : List Block) : List UInt8 := bs.flatMap Block.wire

/-- The type and the length in front of some octets, and what follows them. -/
def readHeader (bs : List UInt8) : Option (ℕ × ℕ × List UInt8) := do
  let (type, bs) ← readVarNumber bs
  if 2 ^ 32 ≤ type then none
  else
    let (length, bs) ← readVarNumber bs
    return (type, length, bs)

/-- The block that some octets are. -/
def Block.ofWire (bs : List UInt8) : Option Block := do
  let (type, length, value) ← readHeader bs
  if value.length = length then return { type := type, value := value } else none

/-- The block at the front of some octets. -/
def Block.fromBuffer (bs : List UInt8) : Option Block := do
  let (type, length, rest) ← readHeader bs
  if rest.length < length then none else return { type := type, value := rest.take length }

/-- The sequence of blocks that some octets are; each takes a unit of fuel. -/
def readBlocks : (fuel : ℕ) → List UInt8 → Option (List Block)
  | _, [] => some []
  | 0, _ :: _ => none
  | fuel + 1, bs => do
    let (type, length, bs) ← readHeader bs
    if bs.length < length then none
    else
      let elements ← readBlocks fuel (bs.drop length)
      return { type := type, value := bs.take length } :: elements

/-- The elements of a block. -/
def Block.elements (b : Block) : Option (List Block) := readBlocks b.value.length b.value

/-- The block that is the whole value of another. -/
def Block.fromValue (b : Block) : Option Block := Block.ofWire b.value

variable {b : Block} {bs : List Block}

@[simp] theorem wires_nil : wires [] = [] := rfl

@[simp] theorem wires_cons (b : Block) (bs : List Block) : wires (b :: bs) = b.wire ++ wires bs := rfl

theorem wires_singleton (b : Block) : wires [b] = b.wire := List.append_nil _

@[simp] theorem wires_append (bs cs : List Block) : wires (bs ++ cs) = wires bs ++ wires cs := List.flatMap_append

theorem readHeader_wire (ht : b.type < 2 ^ 32) (hl : b.value.length < 2 ^ 64) (rest : List UInt8) :
    readHeader (b.wire ++ rest) = some (b.type, b.value.length, b.value ++ rest) := by
  have hnot : ¬ 2 ^ 32 ≤ b.type := not_le.2 ht
  unfold readHeader Block.wire
  rw [List.append_assoc, List.append_assoc, readVarNumber_varNumber (ht.trans (by decide))]
  simp only [bind, Option.bind, if_neg hnot]
  rw [readVarNumber_varNumber hl]
  rfl

theorem length_value_lt (b : Block) : b.value.length < b.wire.length := by
  have := length_varNumber_pos b.type
  unfold Block.wire
  rw [List.length_append, List.length_append]
  omega

theorem length_wires_le {cs : List Block} (h : cs.Sublist bs) : (wires cs).length ≤ (wires bs).length := by
  unfold wires
  rw [List.length_flatMap, List.length_flatMap]
  exact (h.map _).sum_le_sum fun _ _ => Nat.zero_le _

theorem length_wire_le (hb : b ∈ bs) : b.wire.length ≤ (wires bs).length := by
  unfold wires
  rw [List.length_flatMap]
  exact List.le_sum_of_mem (List.mem_map_of_mem hb)

theorem length_value_lt_wires (hb : b ∈ bs) : b.value.length < (wires bs).length :=
  (length_value_lt b).trans_le (length_wire_le hb)

/-- A block is read back. -/
theorem ofWire_wire (ht : b.type < 2 ^ 32) (hl : b.value.length < 2 ^ 64) (hw : b.hasWire = true) :
    Block.ofWire b.wire = some b := by
  have hhead := readHeader_wire ht hl []
  rw [List.append_nil, List.append_nil] at hhead
  unfold Block.ofWire
  rw [hhead]
  simp only [bind, Option.bind, if_true]
  rw [← hw]
  rfl

/-- A block is read back from in front of other octets. -/
theorem fromBuffer_wire (ht : b.type < 2 ^ 32) (hl : b.value.length < 2 ^ 64) (hw : b.hasWire = true)
    (rest : List UInt8) : Block.fromBuffer (b.wire ++ rest) = some b := by
  have hnot : ¬ (b.value ++ rest).length < b.value.length := by
    rw [List.length_append]
    omega
  unfold Block.fromBuffer
  rw [readHeader_wire ht hl rest]
  simp only [bind, Option.bind, if_neg hnot, List.take_left]
  rw [← hw]
  rfl

/-- A sequence of blocks is read back. -/
theorem readBlocks_wires : ∀ {bs : List Block} {fuel : ℕ}, (wires bs).length ≤ fuel → fuel < 2 ^ 64 →
    (∀ b ∈ bs, b.type < 2 ^ 32 ∧ b.hasWire = true) → readBlocks fuel (wires bs) = some bs
  | [], fuel, _, _, _ => by cases fuel <;> rfl
  | b :: bs, fuel, hfuel, hmax, hbs => by
    obtain ⟨ht, hw⟩ := hbs b List.mem_cons_self
    have hwires := wires_cons b bs
    have hlt := length_value_lt b
    have hlen : (wires (b :: bs)).length = b.wire.length + (wires bs).length := by rw [hwires, List.length_append]
    obtain ⟨fuel, rfl⟩ : ∃ k, fuel = k + 1 := ⟨fuel - 1, by omega⟩
    obtain ⟨first, rest, hcons⟩ : ∃ first rest, wires (b :: bs) = first :: rest := by
      refine List.exists_cons_of_ne_nil fun hnil => ?_
      rw [hnil] at hlen
      simp at hlen
      omega
    have hrest := @readBlocks_wires bs fuel (by omega) (by omega) fun c hc => hbs c (List.mem_cons_of_mem b hc)
    have hhead := readHeader_wire ht (by omega) (wires bs)
    rw [← hwires, hcons] at hhead
    rw [hcons]
    simp only [readBlocks, hhead, bind, Option.bind]
    rw [if_neg (by simp), List.drop_left, List.take_left, hrest, ← hw]
    rfl

/-- The elements of a block whose value they make up. -/
theorem elements_wires {type : ℕ} (hlen : (wires bs).length < 2 ^ 64)
    (hbs : ∀ b ∈ bs, b.type < 2 ^ 32 ∧ b.hasWire = true) :
    Block.elements { type := type, value := wires bs } = some bs :=
  readBlocks_wires (le_refl _) hlen hbs

/-- The block that is the only one in the value of another. -/
theorem fromValue_wire {type : ℕ} (ht : b.type < 2 ^ 32) (hl : b.value.length < 2 ^ 64) (hw : b.hasWire = true) :
    Block.fromValue { type := type, value := b.wire } = some b :=
  ofWire_wire ht hl hw

end Tlv
