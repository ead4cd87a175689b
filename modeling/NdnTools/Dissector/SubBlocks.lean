/-
The sub-blocks of any block of the buffer, also of one that does not end in it. Where a list is found it
covers the value of the block, so that taking blocks apart again and again comes to an end: what is found
is smaller, and each block has its header at a place of its own in the buffer.
-/
import NdnTools.Dissector.Expansion

namespace NdnTools.Dissector

/-! ## Covering -/

/-- The blocks cover the value of a block: they follow each other, from its header to its end, and are smaller. -/
structure Covers (b : Block) (bs : List Block) : Prop where
  first : ∀ c ∈ bs.head?, c.offset = b.offset + b.typeLen + b.lengthLen
  next : bs.IsChain fun c d => d.offset = c.offset + c.size
  total : (bs.map Block.size).foldr (· + ·) 0 = b.length
  smaller : ∀ c ∈ bs, c.size < b.size

/-- A block has another one among its sub-blocks. -/
def Expands (tvb : Tvb) (b c : Block) : Prop := ∃ bs, getSubBlocks tvb b = .ok (some bs) ∧ c ∈ bs

variable {tvb : Tvb} {offset : Num} {o e : ℕ} {b c d : Block} {bs : List Block}

theorem readVarNumber_negative {v : ℤ} (hv : v < 0) : readVarNumber tvb (.number v) = .error .outOfBounds := by
  have hlen : ¬ Num.number v ≥ (tvb.len : Num) := by
    rw [ge_iff_le, Num.number_le]
    omega
  have huint : tvb.uint (.number v) 1 = .error .outOfBounds := by
    unfold Tvb.uint
    rw [show tvb.range (.number v) 1 = .error .outOfBounds from if_neg fun h => absurd h.1 (not_le.2 hv)]
    rfl
  simp only [readVarNumber, if_neg hlen, huint, bind, Except.bind]

/-- A block is found at a place of the buffer. -/
theorem place_of_getBlock (h : getBlock tvb offset = .ok (some b)) : ∃ o : ℕ, offset = (o : Num) := by
  cases offset with
  | uint64 w =>
    rw [getBlock_uint64] at h
    split at h <;> cases h
  | number v =>
    rcases lt_or_ge v 0 with hneg | hpos
    · unfold getBlock at h
      rw [readVarNumber_negative hneg] at h
      cases h
    · obtain ⟨o, rfl⟩ := Int.eq_ofNat_of_zero_le hpos
      exact ⟨o, rfl⟩

theorem Tiles.head (h : Tiles tvb o e bs) : ∀ c ∈ bs.head?, c.offset = (o : Num) := by
  cases h with
  | nil => exact fun c hc => by cases hc
  | cons read narrow rest =>
    rintro c hc
    cases hc
    exact (isBlock_of_getBlock read).offset

/-- A block of the usual kind ends behind its size. -/
theorem IsBlock.stop_eq (h : IsBlock tvb o b) (hw : b.length.wide = false) : (b.stop : Num) = b.offset + b.size := by
  have hlt := h.lt_stop
  rw [h.size_eq hw, h.offset, Num.number_add, Num.number.injEq]
  omega

theorem Tiles.isChain (h : Tiles tvb o e bs) : bs.IsChain fun c d => d.offset = c.offset + c.size := by
  induction h with
  | nil o => exact .nil
  | cons read narrow rest ih =>
    refine List.isChain_cons.2 ⟨fun d hd => ?_, ih⟩
    rw [rest.head d hd, (isBlock_of_getBlock read).stop_eq narrow]

theorem Tiles.total (h : Tiles tvb o e bs) : (bs.map Block.size).foldr (· + ·) 0 = ((e - o : ℕ) : Num) := by
  induction h with
  | nil o => simp
  | cons read narrow rest ih =>
    have hb := isBlock_of_getBlock read
    have hlt := hb.lt_stop
    have hle := rest.le
    rw [List.map_cons, List.foldr_cons, ih, hb.size_eq narrow, Num.number_add, Num.number.injEq]
    omega

theorem covers_of_tiles (h : IsBlock tvb o b) (hw : b.length.wide = false) (ht : Tiles tvb b.start b.stop bs) :
    Covers b bs := by
  have hstart := h.start_eq
  refine ⟨fun c hc => ?_, ht.isChain, ?_, fun c hc => ?_⟩
  · rw [ht.head c hc, h.offset, hstart]
    simp
  · rw [ht.total, h.length hw]
    simp [Block.stop]
  · obtain ⟨p, hread, hwide, hp, hstop⟩ := ht.mem hc
    have hlt := h.lt_start
    have hpos := (isBlock_of_getBlock hread).lt_stop
    rw [h.size_eq hw, (isBlock_of_getBlock hread).size_eq hwide, Num.number_lt_natCast]
    omega

/-! ## Any block -/

/-- The first sub-block of a block with a length of nine octets is looked for at a place that is an object. -/
theorem getSubBlocks_wide {w : UInt64} (hw : b.length = .uint64 w) :
    getSubBlocks tvb b = .error .numberExpected ∨ getSubBlocks tvb b = .ok none := by
  unfold getSubBlocks
  rw [hw]
  by_cases hw0 : w = 0
  · refine .inr (TryLoop.run_end _ ?_)
    simp only [subBlocksLoop, if_neg fun hpos => (Num.uint64_pos w).1 hpos hw0]
    rw [if_neg fun hz => by cases hz]
  · obtain ⟨place, hplace⟩ :
        ∃ place : UInt64, b.offset + b.typeLen + b.lengthLen + (b.length - .uint64 w) = .uint64 place := by
      rw [hw]
      cases b.offset with
      | number v => exact ⟨_, rfl⟩
      | uint64 v => exact ⟨_, rfl⟩
    by_cases hin : place < UInt64.ofNat tvb.len
    · refine .inl (TryLoop.run_error _ ?_)
      simp only [subBlocksLoop, if_pos ((Num.uint64_pos w).2 hw0), hplace, getBlock_uint64, if_pos hin]
      rfl
    · refine .inr (TryLoop.run_end _ ?_)
      simp only [subBlocksLoop, if_pos ((Num.uint64_pos w).2 hw0), hplace, getBlock_uint64, if_neg hin]
      rfl

theorem narrow_of_getSubBlocks (h : getSubBlocks tvb b = .ok (some bs)) : b.length.wide = false := by
  cases hlen : b.length with
  | number v => rfl
  | uint64 w => rcases @getSubBlocks_wide tvb _ _ hlen with hw | hw <;> rw [h] at hw <;> cases hw

theorem tiles_of_getSubBlocks (hb : IsBlock tvb o b) (h : getSubBlocks tvb b = .ok (some bs)) :
    Tiles tvb b.start b.stop bs := by
  have hspec := getSubBlocks_spec hb (narrow_of_getSubBlocks h)
  rw [h] at hspec
  exact hspec.2

/-- The loop ends. -/
theorem getSubBlocks_ends (hb : IsBlock tvb o b) : getSubBlocks tvb b ≠ .error .outOfFuel := by
  intro h
  cases hlen : b.length with
  | number v =>
    have hspec := getSubBlocks_spec hb (by rw [hlen]; rfl)
    rw [h] at hspec
    cases hspec.1
  | uint64 w => rcases @getSubBlocks_wide tvb _ _ hlen with hw | hw <;> rw [h] at hw <;> cases hw

/-! ## Taking blocks apart again and again -/

/-- What is found has its header in the buffer. -/
theorem place_of_expands (hb : ∃ o : ℕ, getBlock tvb (o : Num) = .ok (some b))
    (h : Relation.ReflTransGen (Expands tvb) b d) : ∃ o : ℕ, getBlock tvb (o : Num) = .ok (some d) := by
  induction h with
  | refl => exact hb
  | tail _ hstep ih =>
    obtain ⟨o, ho⟩ := ih
    obtain ⟨bs, hbs, hmem⟩ := hstep
    obtain ⟨p, hp, -⟩ := (tiles_of_getSubBlocks (isBlock_of_getBlock ho) hbs).mem hmem
    exact ⟨p, hp⟩

/-- There are no more blocks than places in the buffer. -/
theorem finite_blocks (tvb : Tvb) : {d | ∃ o : ℕ, getBlock tvb (o : Num) = .ok (some d)}.Finite := by
  have hfiber : ∀ o : ℕ, {d | getBlock tvb (o : Num) = .ok (some d)}.Finite := by
    intro o
    refine Set.Subsingleton.finite fun c hc d hd => ?_
    exact Option.some.inj (Except.ok.inj (Eq.trans (Eq.symm hc) hd))
  refine ((Set.finite_Iio tvb.len).biUnion fun o _ => hfiber o).subset ?_
  rintro d ⟨o, ho⟩
  have hd := isBlock_of_getBlock ho
  have hlt := hd.lt_start
  have hle := hd.start_le
  exact Set.mem_biUnion (Set.mem_Iio.2 (by omega)) ho

/-- A sub-block weighs less than its block. -/
theorem weight_lt_of_expands (hb : IsBlock tvb o b) (h : Expands tvb b c) : c.weight < b.weight := by
  obtain ⟨bs, hbs, hmem⟩ := h
  obtain ⟨p, hp, -, hstart, hstop⟩ := (tiles_of_getSubBlocks hb hbs).mem hmem
  have hc := isBlock_of_getBlock hp
  have hlt := hb.lt_start
  have hpos := hc.lt_stop
  unfold Block.weight
  rw [hb.offset, hc.offset, Num.toNat_natCast, Num.toNat_natCast]
  omega

/-- Taking apart what is found ends. -/
theorem acc_expands (hb : ∃ o : ℕ, getBlock tvb (o : Num) = .ok (some b)) : Acc (fun c d => Expands tvb d c) b := by
  induction hn : b.weight using Nat.strong_induction_on generalizing b with
  | _ n ih =>
    refine Acc.intro b fun c hc => ?_
    obtain ⟨o, ho⟩ := hb
    have hlt := weight_lt_of_expands (isBlock_of_getBlock ho) hc
    exact ih c.weight (hn ▸ hlt) (place_of_expands ⟨o, ho⟩ (.single hc)) rfl

/-! ## The loop that creates the tree items -/

section
variable {α β : Type}

/-- No loop was cut off. -/
def Ends (r : Except LuaError α) : Prop := r ≠ .error .outOfFuel

theorem ends_ok (a : α) : Ends (.ok a) := fun h => by cases h

theorem Ends.bind {r : Except LuaError α} {f : α → Except LuaError β} (hr : Ends r) (hf : ∀ a, Ends (f a)) :
    Ends (r >>= f) := by
  cases r with
  | error e => exact fun h => hr (congrArg Except.error (Except.error.inj h))
  | ok a => exact hf a

theorem Ends.mapM {f : α → Except LuaError β} (hf : ∀ a, Ends (f a)) : ∀ l : List α, Ends (l.mapM f)
  | [] => ends_ok []
  | a :: l => by
    rw [List.mapM_cons]
    exact (hf a).bind fun b => (Ends.mapM hf l).bind fun bs => ends_ok (b :: bs)

end

theorem ends_range (tvb : Tvb) (offset size : Num) : Ends (tvb.range offset size) := by
  unfold Tvb.range
  split
  · split
    · exact ends_ok _
    · exact fun h => by cases h
  · exact fun h => by cases h

theorem ends_uint (tvb : Tvb) (offset size : Num) : Ends (tvb.uint offset size) :=
  (ends_range tvb offset size).bind fun _ => ends_ok _

theorem ends_node (heap : Heap) (r : ℕ) : Ends (heap.node r) := by
  unfold Heap.node
  split
  · exact fun h => by cases h
  · exact ends_ok _

section
variable [TvbStrings]

theorem ends_apply (heap : Heap) (node : Node) (f : ValueFn) : Ends (f.apply tvb heap node) := by
  have hcomponent : ∀ b, Ends (getUriFromNameComponent tvb b) := fun b => (ends_range _ _ _).bind fun _ => ends_ok _
  cases f with
  | getUriFromName =>
    change Ends (getUriFromName tvb heap node)
    unfold getUriFromName
    split
    · exact ends_ok _
    · exact (Ends.mapM (fun r => (ends_node heap r).bind fun sub => hcomponent sub.block) _).bind fun _ => ends_ok _
  | getUriFromNameComponent => exact hcomponent node.block
  | getNonNegativeInteger =>
    refine Ends.bind ?_ fun _ => ends_ok _
    unfold getNonNegativeInteger
    split
    · exact ends_uint _ _ _
    split
    · exact ends_uint _ _ _
    split
    · exact ends_uint _ _ _
    · exact ends_ok _
  | getUriFromExclude => exact ends_ok _
  | getTrue => exact ends_ok _
  | getGenericBlockInfo => exact ends_ok _

theorem ends_addInfo (heap : Heap) (node : Node) : Ends (addInfo tvb heap node) := by
  unfold addInfo
  split
  · exact (ends_range _ _ _).bind fun _ => ends_ok _
  · exact (ends_apply _ _ _).bind fun _ => (ends_range _ _ _).bind fun _ => ends_ok _

/-- A block that is not all there has no item. -/
theorem addInfo_outside {heap : Heap} {node : Node} {e : LuaError}
    (h : tvb.range node.block.offset node.block.size = .error e) : ∃ e, addInfo tvb heap node = .error e := by
  unfold addInfo
  cases valueFn node.block.type with
  | none =>
    simp only [h]
    exact ⟨e, rfl⟩
  | some f =>
    cases hf : f.apply tvb heap node with
    | error e' =>
      simp only [hf]
      exact ⟨e', rfl⟩
    | ok value =>
      simp only [hf, h]
      exact ⟨e, rfl⟩

omit [TvbStrings] in
theorem range_outside (hb : IsBlock tvb o b) (hout : b.length.wide = true ∨ tvb.len < b.stop) :
    ∃ e, tvb.range b.offset b.size = .error e := by
  rw [hb.offset]
  cases hw : b.length.wide with
  | true =>
    rw [hb.size]
    cases hlen : b.length with
    | number v => rw [hlen] at hw; cases hw
    | uint64 w => exact ⟨_, rfl⟩
  | false =>
    have hlt := hb.lt_stop
    rw [hw] at hout
    have hlong : tvb.len < b.stop := hout.resolve_left Bool.false_ne_true
    rw [hb.size_eq hw]
    refine ⟨.outOfBounds, if_neg ?_⟩
    rintro ⟨-, -, hle⟩
    omega

/-- It is the only block that the loop comes to. -/
theorem expandLoop_outside (hb : IsBlock tvb o b) {e : LuaError} (hrange : tvb.range b.offset b.size = .error e) :
    ∃ e, expandLoop tvb ([fresh b], [0]) = .error e ∧ e ≠ .outOfFuel := by
  have hnode : Heap.node [fresh b] 0 = .ok (fresh b) := rfl
  cases hsub : getSubBlocks tvb (fresh b).block with
  | error e' =>
    refine ⟨e', ?_, fun he => getSubBlocks_ends hb (he ▸ hsub)⟩
    simp only [expandLoop, hnode, hsub, bind, Except.bind]
  | ok subBlocks =>
    obtain ⟨e', hadd⟩ := @addInfo_outside _ _ ([fresh b] ++ (subBlocks.getD []).map fresh)
      { fresh b with elements := subBlocks.map fun blocks => List.range' [fresh b].length blocks.length } e hrange
    refine ⟨e', ?_, fun he => ends_addInfo _ _ (he ▸ hadd)⟩
    simp only [expandLoop, hnode, hsub, bind, Except.bind]
    rw [hadd]

/-- The loop ends for any block. -/
theorem expand_ends (hb : getBlock tvb (o : Num) = .ok (some b)) : Ends (expand tvb b) := by
  have hblock := isBlock_of_getBlock hb
  by_cases hin : b.length.wide = false ∧ b.stop ≤ tvb.len
  · intro h
    have hspec := expand_spec ⟨⟨o, hb⟩, hin.1, hin.2⟩
    rw [h] at hspec
    cases hspec.1
  · have hout : b.length.wide = true ∨ tvb.len < b.stop := by
      cases hw : b.length.wide with
      | true => exact .inl rfl
      | false => exact .inr (not_le.1 fun hle => hin ⟨hw, hle⟩)
    obtain ⟨e, hrange⟩ := range_outside hblock hout
    obtain ⟨e', hstep, he'⟩ := expandLoop_outside hblock hrange
    unfold expand
    rw [TryLoop.run_error _ hstep]
    exact fun h => he' (Except.error.inj h)

/-- The sub-blocks of a block that `getBlock` returns are found or not, and cover it if they are. Taking apart what is
found comes to finitely many blocks, with no infinite descent, and the dissector's loop that does so ends. -/
theorem subBlocks_tile (tvb : Tvb) (offset : Num) (b : Block) (h : getBlock tvb offset = .ok (some b)) :
    getSubBlocks tvb b ≠ .error .outOfFuel ∧
    (∀ bs, getSubBlocks tvb b = .ok (some bs) → Covers b bs) ∧
    {d | Relation.ReflTransGen (Expands tvb) b d}.Finite ∧ Acc (fun c d => Expands tvb d c) b ∧
    expand tvb b ≠ .error .outOfFuel := by
  obtain ⟨o, rfl⟩ := place_of_getBlock h
  have hb := isBlock_of_getBlock h
  refine ⟨getSubBlocks_ends hb, fun bs hbs => ?_, ?_, acc_expands ⟨o, h⟩, expand_ends h⟩
  · exact covers_of_tiles hb (narrow_of_getSubBlocks hbs) (tiles_of_getSubBlocks hb hbs)
  · exact (finite_blocks tvb).subset fun d hd => place_of_expands ⟨o, h⟩ hd

end

/-- An Interest packet whose name is the only sub-block. -/
theorem subBlocks_tile_interest :
    getBlock ⟨[5, 5, 7, 3, 8, 1, 97], 7⟩ 0 = .ok (some ⟨0, 5, 1, 5, 1, 7⟩) ∧
      Covers ⟨0, 5, 1, 5, 1, 7⟩ [⟨2, 7, 1, 3, 1, 5⟩] := by
  have hread : getBlock ⟨[5, 5, 7, 3, 8, 1, 97], 7⟩ 0 = .ok (some ⟨0, 5, 1, 5, 1, 7⟩) := by decide
  have hlist : getSubBlocks ⟨[5, 5, 7, 3, 8, 1, 97], 7⟩ ⟨0, 5, 1, 5, 1, 7⟩ = .ok (some [⟨2, 7, 1, 3, 1, 5⟩]) := by
    decide
  obtain ⟨-, hcovers, -⟩ := @subBlocks_tile .documented _ _ _ hread
  exact ⟨hread, hcovers _ hlist⟩

end NdnTools.Dissector
