/-
What the dissector finds in a buffer. `Tiles` says that consecutive blocks cover a range of it; that is
what the sub-blocks of a block do. A length of nine octets is an object, and so is every position that
is computed from it: if that is still inside the buffer, reading goes wrong there, and the block
`Stumbles`.
-/
import NdnTools.Dissector.Model

namespace NdnTools.Dissector

variable {tvb : Tvb} {o e p : ℕ} {b c : Block} {bs ds : List Block}

/-! ## Reading a block -/

/-- Read from nine octets. -/
def Num.wide : Num → Bool
  | .number _ => false
  | .uint64 _ => true

/-- A number in the buffer is not negative. -/
def Num.IsRead (n : Num) : Prop := n.wide = false → n = (n.toNat : Num)

theorem Num.isRead_natCast (n : ℕ) : Num.IsRead (n : Num) := fun _ => rfl

theorem Num.isRead_uint64 (w : UInt64) : Num.IsRead (.uint64 w) := fun h => by cases h

/-- Reading a number at a place does not fail, and what it reads is in the buffer. -/
theorem readVarNumber_spec (tvb : Tvb) (o : ℕ) :
    ∃ n k, readVarNumber tvb (o : Num) = .ok (n, k) ∧ n.IsRead ∧ o + k ≤ max o tvb.len := by
  unfold readVarNumber
  by_cases ho : tvb.len ≤ o
  · exact ⟨0, 0, if_pos (Num.number_le_natCast.2 ho), Num.isRead_natCast 0, le_max_left _ _⟩
  rw [if_neg fun h => ho (Num.number_le_natCast.1 h)]
  have hone : tvb.uint (o : Num) 1 = .ok (Tlv.bigEndian ((tvb.bytes.drop o).take 1)) := Tvb.uint_ok (n := 1) (by omega)
  simp only [hone, bind, Except.bind]
  split
  · exact ⟨_, 1, rfl, Num.isRead_natCast _, by omega⟩
  split
  · rename_i h
    have hfit : o + 3 < tvb.len := Num.number_lt_natCast.1 h.2
    obtain ⟨v, hread⟩ : ∃ v, tvb.uint ((o : Num) + 1) 2 = .ok v :=
      ⟨_, Tvb.uint_ok (o := o + 1) (n := 2) (by omega)⟩
    rw [hread]
    exact ⟨v, 3, rfl, Num.isRead_natCast v, by omega⟩
  split
  · rename_i h
    have hfit : o + 5 < tvb.len := Num.number_lt_natCast.1 h.2
    obtain ⟨v, hread⟩ : ∃ v, tvb.uint ((o : Num) + 1) 4 = .ok v :=
      ⟨_, Tvb.uint_ok (o := o + 1) (n := 4) (by omega)⟩
    rw [hread]
    exact ⟨v, 5, rfl, Num.isRead_natCast v, by omega⟩
  split
  · rename_i h
    have hfit : o + 9 < tvb.len := Num.number_lt_natCast.1 h.2
    obtain ⟨v, hread⟩ : ∃ v, tvb.uint64 ((o : Num) + 1) = .ok v := ⟨_, Tvb.uint64_ok (o := o + 1) (by omega)⟩
    rw [hread]
    exact ⟨_, 9, rfl, Num.isRead_uint64 v, by omega⟩
  · exact ⟨0, 0, rfl, Num.isRead_natCast 0, le_max_left _ _⟩

/-- Where the value of a block starts. -/
def Block.start (b : Block) : ℕ := b.offset.toNat + b.typeLen + b.lengthLen

/-- Where it ends. -/
def Block.stop (b : Block) : ℕ := b.start + b.length.toNat

/-- A block whose header is in the buffer. -/
structure IsBlock (tvb : Tvb) (o : ℕ) (b : Block) : Prop where
  offset : b.offset = (o : Num)
  typeLen : 0 < b.typeLen
  lengthLen : 0 < b.lengthLen
  start_le : b.start ≤ tvb.len
  length : b.length.IsRead
  size : b.size = (b.typeLen : Num) + (b.lengthLen : Num) + b.length

theorem IsBlock.start_eq (h : IsBlock tvb o b) : b.start = o + b.typeLen + b.lengthLen := by
  unfold Block.start
  rw [h.offset]
  rfl

theorem IsBlock.lt_start (h : IsBlock tvb o b) : o + 2 ≤ b.start := by
  have := h.start_eq
  have := h.typeLen
  have := h.lengthLen
  omega

theorem IsBlock.lt_stop (h : IsBlock tvb o b) : o + 2 ≤ b.stop := h.lt_start.trans (Nat.le_add_right _ _)

/-- The size of a block is a number if its length is one. -/
theorem IsBlock.size_eq (h : IsBlock tvb o b) (hw : b.length.wide = false) : b.size = ((b.stop - o : ℕ) : Num) := by
  have hs := h.start_eq
  rw [h.size, h.length hw]
  simp only [Num.number_add, Num.number.injEq]
  unfold Block.stop
  omega

/-- Reading a block at a place does not fail. -/
theorem getBlock_spec (tvb : Tvb) (o : ℕ) :
    getBlock tvb (o : Num) = .ok none ∨ ∃ b, getBlock tvb (o : Num) = .ok (some b) ∧ IsBlock tvb o b := by
  obtain ⟨type, typeLen, htype, -, htfit⟩ := readVarNumber_spec tvb o
  obtain ⟨length, lengthLen, hlength, hread, hlfit⟩ := readVarNumber_spec tvb (o + typeLen)
  have hadd : (o : Num) + (typeLen : Num) = ((o + typeLen : ℕ) : Num) := by simp
  unfold getBlock
  simp only [htype, bind, Except.bind]
  by_cases ht : typeLen = 0
  · exact .inl (if_pos ht)
  simp only [if_neg ht, hadd, hlength]
  by_cases hl : lengthLen = 0
  · exact .inl (if_pos hl)
  simp only [if_neg hl]
  refine .inr ⟨_, rfl, rfl, Nat.pos_of_ne_zero ht, Nat.pos_of_ne_zero hl, ?_, hread, rfl⟩
  simp only [Block.start, Num.toNat_natCast]
  omega

theorem isBlock_of_getBlock (h : getBlock tvb (o : Num) = .ok (some b)) : IsBlock tvb o b := by
  rcases getBlock_spec tvb o with h' | ⟨c, h', hc⟩
  · rw [h] at h'
    cases h'
  · rw [h] at h'
    cases h'
    exact hc

/-- An object as offset is beyond the buffer or cannot be read at. -/
theorem readVarNumber_uint64 (tvb : Tvb) (w : UInt64) :
    readVarNumber tvb (.uint64 w) = if w < UInt64.ofNat tvb.len then .error .numberExpected else .ok (0, 0) := by
  have hge : (Num.uint64 w ≥ (tvb.len : Num)) ↔ ¬ w < UInt64.ofNat tvb.len := by
    rw [UInt64.not_lt, ge_iff_le, Num.number_le_uint64, Num.ofInt_natCast]
  unfold readVarNumber
  by_cases hlt : w < UInt64.ofNat tvb.len
  · rw [if_neg fun h => hge.1 h hlt, if_pos hlt, Tvb.uint_uint64]
    rfl
  · rw [if_pos (hge.2 hlt), if_neg hlt]

theorem getBlock_uint64 (tvb : Tvb) (w : UInt64) :
    getBlock tvb (.uint64 w) = if w < UInt64.ofNat tvb.len then .error .numberExpected else .ok none := by
  unfold getBlock
  rw [readVarNumber_uint64]
  split
  · rfl
  · rfl

/-! ## Consecutive blocks -/

/-- Blocks that follow each other from `o` to `e`. -/
inductive Tiles (tvb : Tvb) : (o e : ℕ) → List Block → Prop
  | nil (o : ℕ) : Tiles tvb o o []
  | cons {o e : ℕ} {b : Block} {bs : List Block} (read : getBlock tvb (o : Num) = .ok (some b))
    (narrow : b.length.wide = false) (rest : Tiles tvb b.stop e bs) : Tiles tvb o e (b :: bs)

/-- Reading the blocks from `o` to `e`, one is met whose length takes nine octets and does not end it at `e`, and the
position after it is one of the buffer, as far as 64 bits tell. -/
inductive Stumbles (tvb : Tvb) : (o e : ℕ) → Prop
  | here {o e : ℕ} {b : Block} {w : UInt64} (lt : o < e) (read : getBlock tvb (o : Num) = .ok (some b))
    (wide : b.length = .uint64 w) (ne : UInt64.ofNat b.start + w ≠ UInt64.ofNat e)
    (inside : UInt64.ofNat b.start + w < UInt64.ofNat tvb.len) : Stumbles tvb o e
  | next {o e : ℕ} {b : Block} (lt : o < e) (read : getBlock tvb (o : Num) = .ok (some b))
    (narrow : b.length.wide = false) (rest : Stumbles tvb b.stop e) : Stumbles tvb o e

theorem Tiles.le (h : Tiles tvb o e bs) : o ≤ e := by
  induction h with
  | nil o => exact le_refl o
  | cons read narrow rest ih =>
    have := (isBlock_of_getBlock read).lt_stop
    omega

theorem Tiles.lt (h : Tiles tvb o e (b :: bs)) : o + 2 ≤ e := by
  cases h with
  | cons read narrow rest => exact (isBlock_of_getBlock read).lt_stop.trans rest.le

/-- The blocks of a range are determined. -/
theorem Tiles.unique (h : Tiles tvb o e bs) (h' : Tiles tvb o e ds) : bs = ds := by
  induction h generalizing ds with
  | nil o =>
    cases h' with
    | nil => rfl
    | cons read narrow rest => exact absurd (Tiles.cons read narrow rest).lt (by omega)
  | cons read narrow rest ih =>
    cases h' with
    | nil => exact absurd (Tiles.cons read narrow rest).lt (by omega)
    | cons read' narrow' rest' =>
      rw [read] at read'
      cases read'
      rw [ih rest']

theorem Tiles.mem (h : Tiles tvb o e bs) (hb : b ∈ bs) :
    ∃ p : ℕ, getBlock tvb (p : Num) = .ok (some b) ∧ b.length.wide = false ∧ o ≤ p ∧ b.stop ≤ e := by
  induction h with
  | nil o => cases hb
  | @cons o e c cs read narrow rest ih =>
    rcases List.mem_cons.1 hb with rfl | hb
    · exact ⟨o, read, narrow, le_refl o, rest.le⟩
    · obtain ⟨p, hp, hw, hop, hpe⟩ := ih hb
      have := (isBlock_of_getBlock read).lt_stop
      exact ⟨p, hp, hw, by omega, hpe⟩

theorem Stumbles.lt (h : Stumbles tvb o e) : o < e := by
  cases h with
  | here lt => exact lt
  | next lt => exact lt

/-- What follows a block of the usual kind. -/
theorem tiles_iff (hread : getBlock tvb (o : Num) = .ok (some b)) (hw : b.length.wide = false) (hlt : o < e) :
    Tiles tvb o e bs ↔ ∃ ds, bs = b :: ds ∧ Tiles tvb b.stop e ds := by
  constructor
  · intro h
    cases h with
    | nil => exact absurd hlt (lt_irrefl _)
    | cons read narrow rest =>
      rw [hread] at read
      cases read
      exact ⟨_, rfl, rest⟩
  · rintro ⟨ds, rfl, rest⟩
    exact .cons hread hw rest

theorem stumbles_iff (hread : getBlock tvb (o : Num) = .ok (some b)) (hw : b.length.wide = false) (hlt : o < e) :
    Stumbles tvb o e ↔ Stumbles tvb b.stop e := by
  constructor
  · intro h
    cases h with
    | here lt read wide ne inside =>
      rw [hread] at read
      cases read
      rw [wide] at hw
      cases hw
    | next lt read narrow rest =>
      rw [hread] at read
      cases read
      exact rest
  · exact .next hlt hread hw

/-- A block that cannot be read ends everything. -/
theorem not_tiles_of_none (hread : getBlock tvb (o : Num) = .ok none) (hlt : o < e) : ¬ Tiles tvb o e bs := by
  intro h
  cases h with
  | nil => exact lt_irrefl _ hlt
  | cons read => rw [hread] at read; cases read

theorem not_stumbles_of_none (hread : getBlock tvb (o : Num) = .ok none) : ¬ Stumbles tvb o e := by
  intro h
  cases h with
  | here lt read => rw [hread] at read; cases read
  | next lt read => rw [hread] at read; cases read

theorem not_tiles_of_wide {w : UInt64} (hread : getBlock tvb (o : Num) = .ok (some b)) (hw : b.length = .uint64 w)
    (hlt : o < e) : ¬ Tiles tvb o e bs := by
  intro h
  cases h with
  | nil => exact lt_irrefl _ hlt
  | cons read narrow rest =>
    rw [hread] at read
    cases read
    rw [hw] at narrow
    cases narrow

theorem stumbles_iff_of_wide {w : UInt64} (hread : getBlock tvb (o : Num) = .ok (some b)) (hw : b.length = .uint64 w)
    (hlt : o < e) : Stumbles tvb o e ↔ UInt64.ofNat b.start + w ≠ UInt64.ofNat e ∧
      UInt64.ofNat b.start + w < UInt64.ofNat tvb.len := by
  constructor
  · intro h
    cases h with
    | here lt read wide ne inside =>
      rw [hread] at read
      cases read
      rw [hw] at wide
      cases wide
      exact ⟨ne, inside⟩
    | next lt read narrow rest =>
      rw [hread] at read
      cases read
      rw [hw] at narrow
      cases narrow
  · exact fun h => .here hlt hread hw h.1 h.2

/-! ## Sub-blocks -/

/-- What may come of reading the blocks from `o` to `e`. -/
def SubBlocksOf (tvb : Tvb) (o e : ℕ) : Except LuaError (Option (List Block)) → Prop
  | .error err => err = .numberExpected ∧ Stumbles tvb o e
  | .ok none => ¬ Stumbles tvb o e ∧ ∀ bs, ¬ Tiles tvb o e bs
  | .ok (some bs) => ¬ Stumbles tvb o e ∧ Tiles tvb o e bs

theorem SubBlocksOf.calm {subBlocks : Option (List Block)} (h : SubBlocksOf tvb o e (.ok subBlocks)) :
    ¬ Stumbles tvb o e := by
  cases subBlocks with
  | none => exact h.1
  | some bs => exact h.1

/-- The state of the loop when the blocks before `p` have been read, or when one with a length of nine octets has been
read last. -/
def Reading (tvb : Tvb) (o e : ℕ) : Num × List Block → Prop
  | (.number v, bs) => ∃ p : ℕ, v = e - p ∧ (Stumbles tvb o e ↔ Stumbles tvb p e) ∧
      ∀ ds, Tiles tvb o e ds ↔ ∃ rest, ds = bs ++ rest ∧ Tiles tvb p e rest
  | (.uint64 w, _) => (Stumbles tvb o e ↔ w ≠ 0 ∧ UInt64.ofNat e - w < UInt64.ofNat tvb.len) ∧
      ∀ ds, ¬ Tiles tvb o e ds

/-- What is left to read. -/
def unread (tvb : Tvb) (e : ℕ) : Num × List Block → ℕ
  | (.number v, _) => tvb.len + 2 - ((e : ℤ) - v).toNat
  | (.uint64 _, _) => 1

/-- The position of the next block, from the number of octets left. -/
theorem nextOffset_number (h : IsBlock tvb o b) (hw : b.length.wide = false) (p : ℕ) :
    b.offset + b.typeLen + b.lengthLen + (b.length - .number (b.stop - p : ℤ)) = (p : Num) := by
  have hs := h.start_eq
  rw [h.offset, h.length hw]
  simp only [Num.number_add, Num.number_sub, Num.number.injEq]
  unfold Block.stop
  omega

theorem nextOffset_uint64 (h : IsBlock tvb o b) (hw : b.length.wide = false) (w : UInt64) :
    b.offset + b.typeLen + b.lengthLen + (b.length - .uint64 w) = .uint64 (UInt64.ofNat b.stop - w) := by
  have hs := h.start_eq
  have hstop : b.stop = o + b.typeLen + b.lengthLen + b.length.toNat := by unfold Block.stop; rw [hs]
  rw [h.offset, h.length hw]
  simp only [Num.number_add, Num.number_sub_uint64, Num.number_add_uint64, Num.uint64.injEq]
  rw [hstop, UInt64.ofNat_add, ← Num.ofInt_natCast (o + b.typeLen + b.lengthLen), ← Num.ofInt_natCast]
  push_cast
  grind

/-- The octets that are left after a block with a length of nine octets. -/
theorem left_uint64 {w : UInt64} (h : IsBlock tvb p c) (hw : c.length = .uint64 w) (e : ℕ) :
    Num.number (e - p : ℤ) - c.size = .uint64 (UInt64.ofNat e - (UInt64.ofNat c.start + w)) := by
  have hs := h.start_eq
  rw [h.size, hw, hs]
  simp only [Num.number_add, Num.number_add_uint64, Num.number_sub_uint64, Num.uint64.injEq]
  rw [Num.ofInt_sub, Num.ofInt_natCast, Num.ofInt_natCast, UInt64.ofInt_add, Num.ofInt_natCast, Num.ofInt_natCast,
    UInt64.ofNat_add, UInt64.ofNat_add]
  grind

/-- The next block is read. -/
theorem reading_next (hread : getBlock tvb (p : Num) = .ok (some c)) (hp : p < e)
    (h : Reading tvb o e (.number (e - p : ℤ), bs)) :
    Reading tvb o e (.number (e - p : ℤ) - c.size, bs ++ [c]) := by
  obtain ⟨q, hq, hst, hti⟩ := h
  have hqp : q = p := by omega
  subst hqp
  have hc := isBlock_of_getBlock hread
  cases hlen : c.length with
  | number v =>
    have hw : c.length.wide = false := by rw [hlen]; rfl
    have hsize := hc.size_eq hw
    have hlt := hc.lt_stop
    rw [hsize]
    refine ⟨c.stop, by omega, hst.trans (stumbles_iff hread hw hp), fun ds => (hti ds).trans ?_⟩
    constructor
    · rintro ⟨rest, rfl, hrest⟩
      obtain ⟨rest', rfl, hrest'⟩ := (tiles_iff hread hw hp).1 hrest
      exact ⟨rest', by simp, hrest'⟩
    · rintro ⟨rest, rfl, hrest⟩
      exact ⟨c :: rest, by simp, (tiles_iff hread hw hp).2 ⟨rest, rfl, hrest⟩⟩
  | uint64 w =>
    rw [left_uint64 hc hlen]
    refine ⟨hst.trans ((stumbles_iff_of_wide hread hlen hp).trans (and_congr ?_ ?_)), fun ds hds => ?_⟩
    · rw [not_iff_not]
      constructor
      · intro he
        rw [he]
        exact UInt64.sub_self _
      · intro he
        grind
    · have hsub : UInt64.ofNat e - (UInt64.ofNat e - (UInt64.ofNat c.start + w)) = UInt64.ofNat c.start + w := by grind
      rw [hsub]
    · obtain ⟨rest, -, hrest⟩ := (hti ds).1 hds
      exact not_tiles_of_wide hread hlen hp hrest

/-- One iteration of the loop. -/
theorem subBlocksLoop_steps (h : IsBlock tvb o b) (hw : b.length.wide = false) (s : Num × List Block)
    (hs : Reading tvb b.start b.stop s) :
    TryLoop.Steps (Reading tvb b.start b.stop) (unread tvb b.stop) (SubBlocksOf tvb b.start b.stop) s
      (subBlocksLoop tvb b s) := by
  obtain ⟨left, bs⟩ := s
  cases left with
  | number v =>
    have hs' := hs
    obtain ⟨p, rfl, hst, hti⟩ := hs'
    by_cases hp : p < b.stop
    · have hpos : Num.number (b.stop - p : ℤ) > 0 := (Num.number_pos _).2 (by omega)
      simp only [subBlocksLoop, if_pos hpos, nextOffset_number h hw]
      rcases getBlock_spec tvb p with hread | ⟨c, hread, hc⟩
      · rw [hread]
        refine ⟨fun hstumbles => not_stumbles_of_none hread (hst.1 hstumbles), fun ds hds => ?_⟩
        obtain ⟨rest, -, hrest⟩ := (hti ds).1 hds
        exact not_tiles_of_none hread hp hrest
      · rw [hread]
        refine ⟨reading_next hread hp hs, ?_⟩
        -- the header of the block is in the buffer
        have hstart := hc.start_le
        have hlt := hc.lt_start
        change unread tvb b.stop (Num.number (b.stop - p : ℤ) - c.size, bs ++ [c]) < tvb.len + 2 - _
        cases hlen : c.length with
        | number v =>
          have hstop := hc.lt_stop
          rw [hc.size_eq (by rw [hlen]; rfl)]
          change tvb.len + 2 - _ < _
          omega
        | uint64 w =>
          rw [left_uint64 hc hlen]
          change 1 < _
          omega
    · have hpos : ¬ Num.number (b.stop - p : ℤ) > 0 := fun hpos => hp (by have := (Num.number_pos _).1 hpos; omega)
      simp only [subBlocksLoop, if_neg hpos]
      have hno : ¬ Stumbles tvb b.start b.stop := fun hstumbles => hp (hst.1 hstumbles).lt
      by_cases heq : p = b.stop
      · have hzero : Num.number (b.stop - p : ℤ) = 0 := by rw [heq, sub_self]; rfl
        rw [if_pos hzero]
        exact ⟨hno, (hti bs).2 ⟨[], by simp, heq ▸ .nil p⟩⟩
      · have hne : ¬ Num.number (b.stop - p : ℤ) = 0 := fun hz => heq (by have := Num.number.inj hz; omega)
        rw [if_neg hne]
        refine ⟨hno, fun ds hds => ?_⟩
        obtain ⟨rest, -, hrest⟩ := (hti ds).1 hds
        exact heq (le_antisymm hrest.le (not_lt.1 hp))
  | uint64 w =>
    obtain ⟨hst, hti⟩ := hs
    by_cases hw0 : w = 0
    · simp only [subBlocksLoop, if_neg fun hpos => (Num.uint64_pos w).1 hpos hw0]
      rw [if_neg fun hz => by cases hz]
      exact ⟨fun hstumbles => (hst.1 hstumbles).1 hw0, hti⟩
    · simp only [subBlocksLoop, if_pos ((Num.uint64_pos w).2 hw0), nextOffset_uint64 h hw, getBlock_uint64]
      by_cases hin : UInt64.ofNat b.stop - w < UInt64.ofNat tvb.len
      · rw [if_pos hin]
        exact ⟨rfl, hst.2 ⟨hw0, hin⟩⟩
      · rw [if_neg hin]
        exact ⟨fun hstumbles => hin (hst.1 hstumbles).2, hti⟩

/-- The sub-blocks of a block with a length of the usual kind. -/
theorem getSubBlocks_spec (h : IsBlock tvb o b) (hw : b.length.wide = false) :
    SubBlocksOf tvb b.start b.stop (getSubBlocks tvb b) := by
  have hlen : b.length = .number (b.stop - b.start : ℤ) := by
    rw [h.length hw]
    unfold Block.stop
    simp
  have hstart := h.lt_start
  unfold getSubBlocks
  refine TryLoop.run_spec (subBlocksLoop_steps h hw) ?_ ?_
  · rw [hlen]
    exact ⟨b.start, rfl, Iff.rfl, fun ds => by simp⟩
  · rw [hlen]
    change tvb.len + 2 - _ < tvb.len + 2
    omega

end NdnTools.Dissector
