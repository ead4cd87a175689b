/-
When the dissector fails. It does if a packet that is all there has no summary or has a block in it that
stumbles, if its own length takes nine octets, or if it is followed by octets that are not the header of
a block: what `getBlock` returns then is nil and is indexed.
-/
import NdnTools.Dissector.Summary

namespace NdnTools.Dissector

/-! ## Packets -/

/-- The block does not reach beyond the buffer, as the dissector compares. -/
def Fits (tvb : Tvb) (b : Block) : Prop := b.size ≤ (tvb.len : Num) - b.offset

/-- A packet that can be taken apart and has a summary. -/
structure PacketFine (tvb : Tvb) (b : Block) : Prop where
  expandable : Expandable tvb b
  summed : Summed tvb b

/-- A packet can be dissected with what follows it: it is not all there yet, or it is fine and ends the buffer or is
followed by a block, which can be dissected if it may be a packet. -/
inductive Dissectable (tvb : Tvb) : Block → Prop
  | cut {b : Block} (long : ¬ Fits tvb b) : Dissectable tvb b
  | last {b : Block} (narrow : b.length.wide = false) (stop : b.stop = tvb.len) (fine : PacketFine tvb b) :
      Dissectable tvb b
  | next {b b' : Block} (narrow : b.length.wide = false) (stop : b.stop < tvb.len) (fine : PacketFine tvb b)
      (read : getBlock tvb (b.stop : Num) = .ok (some b'))
      (rest : canBeValidNdnPacket b' = true → Dissectable tvb b') : Dissectable tvb b

/-- The first packet of a buffer. -/
structure FirstPacket (tvb : Tvb) (o : ℕ) (b : Block) : Prop where
  lt : o + 2 < tvb.len
  read : getBlock tvb (o : Num) = .ok (some b)
  valid : canBeValidNdnPacket b = true
  first : ∀ o' < o, ∀ b', getBlock tvb ((o' : ℕ) : Num) = .ok (some b') → canBeValidNdnPacket b' = false

variable {tvb : Tvb} {o : ℕ} {b b' : Block}

theorem fits_iff (h : IsBlock tvb o b) (hw : b.length.wide = false) : Fits tvb b ↔ b.stop ≤ tvb.len := by
  have hlt := h.lt_stop
  unfold Fits
  rw [h.size_eq hw, h.offset, Num.number_sub, Num.number_le]
  omega

/-- What there is to a packet that is all there. -/
theorem dissectable_iff (h : IsBlock tvb o b) (hw : b.length.wide = false) (hfits : b.stop ≤ tvb.len) :
    Dissectable tvb b ↔ PacketFine tvb b ∧ (b.stop = tvb.len ∨ ∃ b', getBlock tvb (b.stop : Num) = .ok (some b') ∧
      (canBeValidNdnPacket b' = true → Dissectable tvb b')) := by
  constructor
  · intro hd
    cases hd with
    | cut long => exact absurd ((fits_iff h hw).2 hfits) long
    | last narrow stop fine => exact ⟨fine, .inl stop⟩
    | next narrow stop fine read rest => exact ⟨fine, .inr ⟨_, read, rest⟩⟩
  · rintro ⟨fine, hstop | ⟨b', read, rest⟩⟩
    · exact .last hw hstop fine
    · rcases hfits.lt_or_eq with hlt | heq
      · exact .next hw hlt fine read rest
      · exact .last hw heq fine

theorem not_dissectable_of_wide (hw : b.length.wide = true) (hfits : Fits tvb b) : ¬ Dissectable tvb b := by
  intro h
  cases h with
  | cut long => exact long hfits
  | last narrow => rw [hw] at narrow; cases narrow
  | next narrow => rw [hw] at narrow; cases narrow

/-- Octets behind the packet that are no block are not dissected. -/
theorem not_dissectable_of_unread (h : IsBlock tvb o b) (hw : b.length.wide = false) (hmore : b.stop < tvb.len)
    (hread : getBlock tvb (b.stop : Num) = .ok none) : ¬ Dissectable tvb b := by
  intro hd
  obtain ⟨-, hstop | ⟨c, hread', -⟩⟩ := (dissectable_iff h hw hmore.le).1 hd
  · exact hmore.ne hstop
  · rw [hread] at hread'
    cases hread'

/-- With a block behind it, a fine packet leaves the question to that block. -/
theorem dissectable_iff_next (h : IsBlock tvb o b) (hw : b.length.wide = false) (hmore : b.stop < tvb.len)
    (hfine : PacketFine tvb b) (hread : getBlock tvb (b.stop : Num) = .ok (some b')) :
    Dissectable tvb b ↔ (canBeValidNdnPacket b' = true → Dissectable tvb b') := by
  rw [dissectable_iff h hw hmore.le]
  constructor
  · rintro ⟨-, hstop | ⟨c, hread', hrest⟩⟩
    · exact absurd hstop hmore.ne
    · rw [hread] at hread'
      cases hread'
      exact hrest
  · exact fun hrest => ⟨hfine, .inr ⟨b', hread, hrest⟩⟩

/-- A packet is an Interest or a Data packet. -/
theorem known_of_valid (h : canBeValidNdnPacket b = true) : ∃ info, dictInfo b.type = some info := by
  unfold canBeValidNdnPacket at h
  obtain ⟨ht | ht, -⟩ := of_decide_eq_true h
  · rw [ht]
    exact ⟨_, rfl⟩
  · rw [ht]
    exact ⟨_, rfl⟩

/-! ## Finding a packet -/

/-- What the search finds between two places. -/
def Found (tvb : Tvb) (o e : ℕ) : Except LuaError (Option Block) → Prop
  | .error _ => False
  | .ok none => ∀ p, o ≤ p → p < e → ∀ b, getBlock tvb ((p : ℕ) : Num) = .ok (some b) → canBeValidNdnPacket b = false
  | .ok (some b) => ∃ p : ℕ, o ≤ p ∧ p < e ∧ getBlock tvb (p : Num) = .ok (some b) ∧ canBeValidNdnPacket b = true ∧
      ∀ p', o ≤ p' → p' < p → ∀ b', getBlock tvb ((p' : ℕ) : Num) = .ok (some b') → canBeValidNdnPacket b' = false

/-- A place without a packet is passed over. -/
theorem found_next {e : ℕ} {result : Except LuaError (Option Block)}
    (hno : ∀ b, getBlock tvb (o : Num) = .ok (some b) → canBeValidNdnPacket b = false)
    (h : Found tvb (o + 1) e result) : Found tvb o e result := by
  have hle : ∀ {p}, o ≤ p → p ≠ o → o + 1 ≤ p := fun hp hne => by omega
  match result, h with
  | .ok none, h =>
    intro p hp hpe b hread
    by_cases heq : p = o
    · exact hno b (heq ▸ hread)
    · exact h p (hle hp heq) hpe b hread
  | .ok (some b), ⟨p, hp, hpe, hread, hvalid, hfirst⟩ =>
    refine ⟨p, by omega, hpe, hread, hvalid, fun p' hp' hlt b' hread' => ?_⟩
    by_cases heq : p' = o
    · exact hno b' (heq ▸ hread')
    · exact hfirst p' (hle hp' heq) hlt b' hread'

theorem findNdnPacketFrom_spec (tvb : Tvb) : ∀ left o : ℕ, Found tvb o (o + left) (findNdnPacketFrom tvb left o)
  | 0, o => fun p hp hpe => absurd hpe (by omega)
  | left + 1, o => by
    have hrest := findNdnPacketFrom_spec tvb left (o + 1)
    rw [show o + 1 + left = o + (left + 1) by omega] at hrest
    unfold findNdnPacketFrom
    rcases getBlock_spec tvb o with hread | ⟨b, hread, -⟩
    · rw [hread]
      exact found_next (fun b hb => by rw [hread] at hb; cases hb) hrest
    · rw [hread]
      change Found tvb o _ (if canBeValidNdnPacket b = true then .ok (some b) else findNdnPacketFrom tvb left (o + 1))
      split
      · rename_i hvalid
        exact ⟨o, le_refl o, by omega, hread, hvalid, fun p hp hlt => absurd hlt (by omega)⟩
      · rename_i hvalid
        refine found_next (fun b' hb' => ?_) hrest
        rw [hread] at hb'
        cases hb'
        simpa using hvalid

/-- The search ends, with the first packet or without one if there is none. -/
theorem findNdnPacket_spec (tvb : Tvb) :
    (findNdnPacket tvb = .ok none ∧ ∀ o b, ¬ FirstPacket tvb o b) ∨
      ∃ o b, findNdnPacket tvb = .ok (some b) ∧ FirstPacket tvb o b ∧ ∀ o' b', FirstPacket tvb o' b' → b' = b := by
  have h := findNdnPacketFrom_spec tvb (tvb.len - 2) 0
  rw [Nat.zero_add] at h
  unfold findNdnPacket
  match hr : findNdnPacketFrom tvb (tvb.len - 2) 0, h with
  | .ok none, h =>
    refine .inl ⟨rfl, fun o b hfirst => ?_⟩
    have hlt := hfirst.lt
    have hno := h o (Nat.zero_le o) (by omega) b hfirst.read
    rw [hfirst.valid] at hno
    cases hno
  | .ok (some b), ⟨p, _, hpe, hread, hvalid, hno⟩ =>
    have hfirst : FirstPacket tvb p b := ⟨by omega, hread, hvalid, fun o' hlt => hno o' (Nat.zero_le o') hlt⟩
    refine .inr ⟨p, b, rfl, hfirst, fun o' b' h' => ?_⟩
    -- neither comes before the other
    have hle : ¬ o' < p := fun hlt => by
      have := hfirst.first o' hlt b' h'.read
      rw [h'.valid] at this
      cases this
    have hge : ¬ p < o' := fun hlt => by
      have := h'.first p hlt b hread
      rw [hvalid] at this
      cases this
    obtain rfl : o' = p := by omega
    have hread' := h'.read
    rw [hread] at hread'
    exact (Option.some.inj (Except.ok.inj hread')).symm

/-! ## Dissecting a packet -/

section
variable [TvbStrings]

/-- The dissection of a packet that is all there ends, and it succeeds exactly if the packet is fine. -/
def PacketResult (tvb : Tvb) (b : Block) : Except LuaError String → Prop
  | .error e => e ≠ .outOfFuel ∧ ¬ PacketFine tvb b
  | .ok _ => PacketFine tvb b

theorem dissectPacket_spec (h : InBuffer tvb b) (hvalid : canBeValidNdnPacket b = true) :
    PacketResult tvb b (dissectPacket tvb b) := by
  obtain ⟨bytes, hrange⟩ := range_block h
  obtain ⟨info, hinfo⟩ := known_of_valid hvalid
  have hexpand := expand_spec h
  cases hheap : expand tvb b with
  | error e =>
    rw [hheap] at hexpand
    obtain ⟨rfl, d, hd, hstumbles⟩ := hexpand
    simp only [dissectPacket, hrange, hheap, bind, Except.bind]
    exact ⟨by decide, fun hfine => hfine.expandable d hd hstumbles⟩
  | ok heap =>
    rw [hheap] at hexpand
    obtain ⟨heap', node, hsum, hnode, hiff⟩ := summarize_spec hexpand
    simp only [dissectPacket, hrange, hheap, hsum, hnode, hinfo, bind, Except.bind]
    cases hsummary : node.summary with
    | none =>
      refine ⟨by decide, fun hfine => ?_⟩
      have := hiff.2 hfine.summed
      rw [hsummary] at this
      cases this
    | some summary => exact ⟨Expanding.expandable hexpand, hiff.1 (by rw [hsummary]; rfl)⟩

/-- The item of a packet with a length of nine octets cannot be made. -/
theorem dissectPacket_of_wide (h : IsBlock tvb o b) (hw : b.length.wide = true) :
    dissectPacket tvb b = .error .numberExpected := by
  have hrange : tvb.range b.offset b.size = .error .numberExpected := by
    rw [h.offset, h.size]
    cases hlen : b.length with
    | number n => rw [hlen] at hw; cases hw
    | uint64 w => rfl
  unfold dissectPacket
  rw [hrange]
  rfl

end

/-! ## The packets of a buffer -/

/-- The state of the loop: at a packet that decides what becomes of the buffer, or behind the last one. -/
def AtPacket (tvb : Tvb) (p : Block) : Block × Num × List String → Prop
  | (b, nBytesLeft, _) =>
    (∃ o : ℕ, getBlock tvb (o : Num) = .ok (some b) ∧ canBeValidNdnPacket b = true ∧
      nBytesLeft = (tvb.len : Num) - b.offset ∧ (Dissectable tvb p ↔ Dissectable tvb b)) ∨
    (nBytesLeft = 0 ∧ ¬ b.size ≤ 0 ∧ Dissectable tvb p)

/-- How the loop ends. -/
def PacketsResult (tvb : Tvb) (p : Block) {α : Type} : Except LuaError α → Prop
  | .error e => e ≠ .outOfFuel ∧ ¬ Dissectable tvb p
  | .ok _ => Dissectable tvb p

/-- The octets that are left at a packet. -/
theorem left_toNat (h : IsBlock tvb o b) : ((tvb.len : Num) - b.offset).toNat = tvb.len - o := by
  rw [h.offset, Num.number_sub]
  exact Int.toNat_sub tvb.len o

/-- The octets that are left behind it. -/
theorem left_sub_size (h : IsBlock tvb o b) (hw : b.length.wide = false) :
    (tvb.len : Num) - b.offset - b.size = .number ((tvb.len : ℤ) - b.stop) := by
  have hlt := h.lt_stop
  rw [h.size_eq hw, h.offset]
  simp only [Num.number_sub, Num.number.injEq]
  omega

section
variable [TvbStrings] {p : Block} {nBytesLeft : Num} {shown : List String}

theorem packetLoop_of_not_fits (h : ¬ b.size ≤ nBytesLeft) :
    packetLoop tvb (b, nBytesLeft, shown) = .ok (.inr (some b, nBytesLeft, shown)) := by
  unfold packetLoop
  exact if_neg h

theorem packetLoop_of_error {e : LuaError} (h : b.size ≤ nBytesLeft) (he : dissectPacket tvb b = .error e) :
    packetLoop tvb (b, nBytesLeft, shown) = .error e := by
  simp only [packetLoop, if_pos h, he, bind, Except.bind]

/-- An iteration at a packet with something behind it. -/
theorem packetLoop_steps_more {text : String} (h : IsBlock tvb o b) (hin : InBuffer tvb b)
    (htext : dissectPacket tvb b = .ok text) (hfine : PacketFine tvb b) (hmore : b.stop < tvb.len)
    (hp : Dissectable tvb p ↔ Dissectable tvb b) :
    TryLoop.Steps (AtPacket tvb p) (fun s => s.2.1.toNat) (PacketsResult tvb p) (b, (tvb.len : Num) - b.offset, shown)
      (packetLoop tvb (b, (tvb.len : Num) - b.offset, shown)) := by
  have hw := hin.narrow
  have hlt := h.lt_stop
  have hfits : b.size ≤ (tvb.len : Num) - b.offset := (fits_iff h hw).2 hin.stop_le
  have hpos : Num.number ((tvb.len : ℤ) - b.stop) > 0 := (Num.number_pos _).2 (by omega)
  have hoffset : (tvb.len : Num) - .number ((tvb.len : ℤ) - b.stop) = (b.stop : Num) := by simp
  simp only [packetLoop, if_pos hfits, htext, left_sub_size h hw, bind, Except.bind]
  rw [if_pos hpos, hoffset]
  rcases getBlock_spec tvb b.stop with hread | ⟨b', hread, hb'⟩
  · -- the block is nil, and the call that indexes it is not protected
    rw [hread]
    exact ⟨by decide, fun hd => not_dissectable_of_unread h hw hmore hread (hp.1 hd)⟩
  · have hrest := hp.trans (dissectable_iff_next h hw hmore hfine hread)
    rw [hread]
    simp only []
    split
    · rename_i hvalid'
      refine ⟨.inl ⟨b.stop, hread, hvalid', ?_, by rw [hrest]; simp [hvalid']⟩, ?_⟩
      · rw [hb'.offset]
        rfl
      · change ((tvb.len : ℤ) - b.stop).toNat < Num.toNat _
        rw [left_toNat h]
        omega
    · rename_i hvalid'
      exact hrest.2 fun hv => absurd hv hvalid'

/-- An iteration at a packet that ends with the buffer. -/
theorem packetLoop_steps_last {text : String} (h : IsBlock tvb o b) (hin : InBuffer tvb b)
    (htext : dissectPacket tvb b = .ok text) (hend : b.stop = tvb.len) (hd : Dissectable tvb p) :
    TryLoop.Steps (AtPacket tvb p) (fun s => s.2.1.toNat) (PacketsResult tvb p) (b, (tvb.len : Num) - b.offset, shown)
      (packetLoop tvb (b, (tvb.len : Num) - b.offset, shown)) := by
  have hw := hin.narrow
  have hlt := h.lt_stop
  have hfits : b.size ≤ (tvb.len : Num) - b.offset := (fits_iff h hw).2 hin.stop_le
  have hzero : Num.number ((tvb.len : ℤ) - b.stop) = 0 := by rw [hend, sub_self]; rfl
  have hnone : ¬ (0 : Num) > 0 := fun h => lt_irrefl (0 : ℤ) h
  simp only [packetLoop, if_pos hfits, htext, left_sub_size h hw, bind, Except.bind]
  rw [hzero, if_neg hnone]
  refine ⟨.inr ⟨rfl, fun hsize => ?_, hd⟩, ?_⟩
  · rw [h.size_eq hw] at hsize
    have hsize' : b.stop - o ≤ 0 := Num.number_le_natCast.1 hsize
    omega
  · change 0 < Num.toNat _
    rw [left_toNat h]
    omega

/-- An iteration at a packet of the usual kind that is all there. -/
theorem packetLoop_steps_fits (h : IsBlock tvb o b) (hin : InBuffer tvb b) (hvalid : canBeValidNdnPacket b = true)
    (hp : Dissectable tvb p ↔ Dissectable tvb b) :
    TryLoop.Steps (AtPacket tvb p) (fun s => s.2.1.toNat) (PacketsResult tvb p) (b, (tvb.len : Num) - b.offset, shown)
      (packetLoop tvb (b, (tvb.len : Num) - b.offset, shown)) := by
  have hle := hin.stop_le
  have hfits : b.size ≤ (tvb.len : Num) - b.offset := (fits_iff h hin.narrow).2 hle
  have hiff := dissectable_iff h hin.narrow hle
  have hpacket := dissectPacket_spec hin hvalid
  cases htext : dissectPacket tvb b with
  | error e =>
    rw [htext] at hpacket
    rw [packetLoop_of_error hfits htext]
    exact ⟨hpacket.1, fun hd => hpacket.2 (hiff.1 (hp.1 hd)).1⟩
  | ok text =>
    rw [htext] at hpacket
    rcases hle.lt_or_eq with hmore | hend
    · exact packetLoop_steps_more h hin htext hpacket hmore hp
    · exact packetLoop_steps_last h hin htext hend (hp.2 (hiff.2 ⟨hpacket, .inl hend⟩))

/-- One iteration. -/
theorem packetLoop_steps (s : Block × Num × List String) (hs : AtPacket tvb p s) :
    TryLoop.Steps (AtPacket tvb p) (fun s => s.2.1.toNat) (PacketsResult tvb p) s (packetLoop tvb s) := by
  obtain ⟨b, nBytesLeft, shown⟩ := s
  rcases hs with ⟨o, hread, hvalid, rfl, hp⟩ | ⟨rfl, hsize, hd⟩
  · have h := isBlock_of_getBlock hread
    by_cases hfits : Fits tvb b
    · cases hw : b.length.wide with
      | false => exact packetLoop_steps_fits h ⟨⟨o, hread⟩, hw, (fits_iff h hw).1 hfits⟩ hvalid hp
      | true =>
        rw [packetLoop_of_error hfits (dissectPacket_of_wide h hw)]
        exact ⟨by decide, fun hd => not_dissectable_of_wide hw hfits (hp.1 hd)⟩
    · rw [packetLoop_of_not_fits hfits]
      exact hp.2 (.cut hfits)
  · rw [packetLoop_of_not_fits hsize]
    exact hd

/-- The loop ends, and without an error exactly if the packet it starts with can be dissected. -/
theorem packetLoop_spec (h : FirstPacket tvb o b) :
    PacketsResult tvb b
      ((packetLoop tvb).run .outOfFuel (tvb.len + 2) (b, (tvb.len : Num) - b.offset, [])) := by
  refine TryLoop.run_spec packetLoop_steps (.inl ⟨o, h.read, h.valid, rfl, Iff.rfl⟩) ?_
  rw [left_toNat (isBlock_of_getBlock h.read)]
  omega

/-- The dissector ends on every buffer. It returns, and does nothing that Lua refuses, exactly if the buffer was
not captured in full, has no packet in it, or has a first packet that can be dissected with what follows it. -/
theorem dissector_ok_iff (tvb : Tvb) :
    dissector tvb ≠ .error .outOfFuel ∧ ((∃ report, dissector tvb = .ok report) ↔
      (tvb.len = tvb.reportedLen → ∀ o b, FirstPacket tvb o b → Dissectable tvb b)) := by
  by_cases hlen : tvb.len = tvb.reportedLen
  · rcases findNdnPacket_spec tvb with ⟨hfind, hno⟩ | ⟨o, b, hfind, hfirst, hunique⟩
    · have hret : dissector tvb = .ok none := by simp only [dissector, hlen, hfind, ne_eq, not_true_eq_false, if_false]
      rw [hret]
      exact ⟨by simp, fun _ _ o b h => absurd h (hno o b), fun _ => ⟨none, rfl⟩⟩
    · have hpackets := packetLoop_spec hfirst
      have hiff : (tvb.len = tvb.reportedLen → ∀ o b, FirstPacket tvb o b → Dissectable tvb b) ↔ Dissectable tvb b :=
        ⟨fun h => h hlen o b hfirst, fun h _ o' b' h' => hunique o' b' h' ▸ h⟩
      rw [hiff]
      have hnot : ¬ tvb.len ≠ tvb.reportedLen := not_not.2 hlen
      simp only [dissector, if_neg hnot, hfind]
      cases hrun : (packetLoop tvb).run .outOfFuel (tvb.len + 2) (b, (tvb.len : Num) - b.offset, []) with
      | error e =>
        rw [hrun] at hpackets
        refine ⟨fun he => hpackets.1 (Except.error.inj he), ?_, fun hd => absurd hd hpackets.2⟩
        rintro ⟨report, hreport⟩
        cases hreport
      | ok r =>
        rw [hrun] at hpackets
        refine ⟨fun he => ?_, fun _ => hpackets, fun _ => ⟨_, rfl⟩⟩
        cases he
  · have hret : dissector tvb = .ok none := if_pos hlen
    rw [hret]
    exact ⟨by simp, fun _ h => absurd h hlen, fun _ => ⟨none, rfl⟩⟩

end

/-- A packet followed by one octet, an Interest packet without a name, and packets that have a length of nine octets
or an element that has one. -/
theorem dissector_fails :
    @dissector .documented ⟨[5, 5, 7, 3, 8, 1, 97, 5], 8⟩ = .error .indexNil ∧
    @dissector .documented ⟨[5, 0, 1], 3⟩ = .error .concatNil ∧
    @dissector .documented ⟨[5, 255, 0, 0, 0, 0, 0, 0, 0, 1, 0, 3, 4, 5, 6], 15⟩ = .error .numberExpected ∧
    @dissector .documented ⟨[5, 15, 7, 3, 8, 1, 97, 255, 0, 0, 0, 0, 0, 0, 0, 1, 0, 3, 4, 5, 6], 21⟩ =
      .error .numberExpected := by decide +kernel

end NdnTools.Dissector
