/-
What the dissector reports of a buffer: the texts of its packets, one after the other, and where it wants more octets
if the last block is not all there.
-/
import NdnTools.Dissector.Described

namespace NdnTools.Dissector

theorem Num.lt_of_not_le {a b : Num} (h : ¬ a ≤ b) : b < a := by
  cases a <;> cases b
  · exact Int.lt_of_not_ge h
  · exact UInt64.not_le.1 h
  · exact UInt64.not_le.1 h
  · exact UInt64.not_le.1 h

theorem Num.not_lt_of_le {a b : Num} (h : a ≤ b) : ¬ b < a := by
  cases a <;> cases b
  · exact Int.not_lt.2 h
  · exact UInt64.not_lt.2 h
  · exact UInt64.not_lt.2 h
  · exact UInt64.not_lt.2 h

/-- Where more octets are wanted. -/
def askedAt (tvb : Tvb) (block : Option Block) (nBytesLeft : Num) : Option Num :=
  if nBytesLeft > 0 ∧ ∃ b ∈ block, b.size > nBytesLeft then some (tvb.len - nBytesLeft) else none

variable {tvb : Tvb} {o : ℕ} {b p : Block} {texts texts' : List String} {offset offset' : Option Num}

theorem left_pos (h : IsBlock tvb o b) : (tvb.len : Num) - b.offset > 0 := by
  have hlt := h.lt_start
  have hle := h.start_le
  rw [h.offset, Num.number_sub, Num.number_pos]
  omega

theorem len_sub_left (h : IsBlock tvb o b) : (tvb.len : Num) - ((tvb.len : Num) - b.offset) = b.offset := by
  rw [h.offset]
  simp

theorem askedAt_of_fits (hfits : Fits tvb b) : askedAt tvb (some b) ((tvb.len : Num) - b.offset) = none := by
  unfold askedAt
  rw [if_neg]
  rintro ⟨-, c, hc, hsize⟩
  cases hc
  exact Num.not_lt_of_le hfits hsize

theorem askedAt_of_cut (h : IsBlock tvb o b) (hlong : ¬ Fits tvb b) :
    askedAt tvb (some b) ((tvb.len : Num) - b.offset) = some b.offset := by
  unfold askedAt
  rw [if_pos ⟨left_pos h, b, rfl, Num.lt_of_not_le hlong⟩, len_sub_left h]

section
variable [TvbStrings]

/-- What is shown of the packets from a block on. A block that may be no packet ends them. -/
inductive PacketsShown (tvb : Tvb) : Block → List String → Option Num → Prop
  | cut {b : Block} (long : ¬ Fits tvb b) : PacketsShown tvb b [] (some b.offset)
  | other {b : Block} (invalid : canBeValidNdnPacket b = false) (fits : Fits tvb b) : PacketsShown tvb b [] none
  | last {b : Block} {text : String} (valid : canBeValidNdnPacket b = true) (narrow : b.length.wide = false)
      (stop : b.stop = tvb.len) (expandable : Expandable tvb b) (shows : PacketText tvb b text) :
      PacketsShown tvb b [text] none
  | next {b b' : Block} {text : String} {texts : List String} {offset : Option Num}
      (valid : canBeValidNdnPacket b = true) (narrow : b.length.wide = false) (stop : b.stop < tvb.len)
      (expandable : Expandable tvb b) (shows : PacketText tvb b text)
      (read : getBlock tvb (b.stop : Num) = .ok (some b')) (rest : PacketsShown tvb b' texts offset) :
      PacketsShown tvb b (text :: texts) offset

theorem SummedAs.summed {text : String} (h : SummedAs tvb b text) : Summed tvb b := by
  obtain ⟨known, sums, tiles, all, shows, nonempty⟩ := h
  obtain ⟨q, hq⟩ := List.exists_mem_of_ne_nil _ nonempty
  have hmem := List.mem_map_of_mem (f := Prod.fst) hq
  rw [all, List.mem_filter] at hmem
  exact ⟨_, _, known, sums, tiles, q.1, hmem.1, by simpa using hmem.2⟩

theorem PacketText.fine {text : String} (h : PacketText tvb b text) (he : Expandable tvb b) : PacketFine tvb b := by
  obtain ⟨info, s, known, summed, rfl⟩ := h
  exact ⟨he, summed.summed⟩

/-- Packets that are described can be dissected. -/
theorem PacketsShown.dissectable (h : PacketsShown tvb b texts offset) :
    canBeValidNdnPacket b = true → Dissectable tvb b := by
  induction h with
  | cut long => exact fun _ => .cut long
  | other invalid =>
    intro hvalid
    rw [invalid] at hvalid
    cases hvalid
  | last valid narrow stop expandable shows => exact fun _ => .last narrow stop (shows.fine expandable)
  | next valid narrow stop expandable shows read rest ih =>
    exact fun _ => .next narrow stop (shows.fine expandable) read ih

/-- The description of a buffer is determined. -/
theorem PacketsShown.unique (h : PacketsShown tvb b texts offset) :
    ∀ texts' offset', IsBlock tvb o b → PacketsShown tvb b texts' offset' → texts = texts' ∧ offset = offset' := by
  induction h generalizing o with
  | cut long =>
    intro texts' offset' hb h'
    cases h' with
    | cut => exact ⟨rfl, rfl⟩
    | other invalid fits => exact absurd fits long
    | last valid narrow stop => exact absurd ((fits_iff hb narrow).2 stop.le) long
    | next valid narrow stop => exact absurd ((fits_iff hb narrow).2 stop.le) long
  | other invalid fits =>
    intro texts' offset' hb h'
    cases h' with
    | cut long => exact absurd fits long
    | other => exact ⟨rfl, rfl⟩
    | last valid =>
      rw [invalid] at valid
      cases valid
    | next valid =>
      rw [invalid] at valid
      cases valid
  | last valid narrow stop expandable shows =>
    intro texts' offset' hb h'
    cases h' with
    | cut long => exact absurd ((fits_iff hb narrow).2 stop.le) long
    | other invalid =>
      rw [invalid] at valid
      cases valid
    | last valid' narrow' stop' expandable' shows' =>
      rw [shows.unique shows']
      exact ⟨rfl, rfl⟩
    | next valid' narrow' stop' => exact absurd stop stop'.ne
  | next valid narrow stop expandable shows read rest ih =>
    intro texts' offset' hb h'
    cases h' with
    | cut long => exact absurd ((fits_iff hb narrow).2 stop.le) long
    | other invalid =>
      rw [invalid] at valid
      cases valid
    | last valid' narrow' stop' => exact absurd stop' stop.ne
    | next valid' narrow' stop' expandable' shows' read' rest' =>
      cases read.symm.trans read'
      obtain ⟨rfl, rfl⟩ := ih _ _ (isBlock_of_getBlock read) rest'
      rw [shows.unique shows']
      exact ⟨rfl, rfl⟩

/-! ## The loop -/

/-- The state of the loop: what is shown from a block on completes what has been shown. -/
def ShownSoFar (tvb : Tvb) (p : Block) (s : Block × Num × List String) : Prop :=
  (∃ o : ℕ, getBlock tvb (o : Num) = .ok (some s.1) ∧ canBeValidNdnPacket s.1 = true ∧
    s.2.1 = (tvb.len : Num) - s.1.offset ∧
    ∀ texts offset, PacketsShown tvb s.1 texts offset → PacketsShown tvb p (s.2.2 ++ texts) offset) ∨
  (s.2.1 = 0 ∧ ¬ s.1.size ≤ 0 ∧ PacketsShown tvb p s.2.2 none)

/-- How it ends. -/
def ShownAtEnd (tvb : Tvb) (p : Block) (r : Option Block × Num × List String) : Prop :=
  PacketsShown tvb p r.2.2 (askedAt tvb r.1 r.2.1)

/-- A block that is no packet, or not all there. -/
theorem packetsShown_nil (h : IsBlock tvb o b) (hend : canBeValidNdnPacket b = false ∨ ¬ Fits tvb b) :
    PacketsShown tvb b [] (askedAt tvb (some b) ((tvb.len : Num) - b.offset)) := by
  by_cases hfits : Fits tvb b
  · rw [askedAt_of_fits hfits]
    exact .other (hend.resolve_right (not_not.2 hfits)) hfits
  · rw [askedAt_of_cut h hfits]
    exact .cut hfits

variable {shown : List String} {next : (Block × Num × List String) ⊕ (Option Block × Num × List String)}

/-- An iteration at a packet that is all there. -/
theorem packetLoop_shown_fits {text : String} (h : IsBlock tvb o b) (hin : InBuffer tvb b)
    (hvalid : canBeValidNdnPacket b = true) (htext : dissectPacket tvb b = .ok text)
    (hp : ∀ texts offset, PacketsShown tvb b texts offset → PacketsShown tvb p (shown ++ texts) offset)
    (hl : packetLoop tvb (b, (tvb.len : Num) - b.offset, shown) = .ok next) :
    next.elim (ShownSoFar tvb p) (ShownAtEnd tvb p) := by
  have hw := hin.narrow
  have hlt := h.lt_stop
  have hfits : b.size ≤ (tvb.len : Num) - b.offset := (fits_iff h hw).2 hin.stop_le
  have hshows := dissectPacket_text hin hvalid htext
  have hfine : PacketFine tvb b := by
    have hpacket := dissectPacket_spec hin hvalid
    rwa [htext] at hpacket
  simp only [packetLoop, if_pos hfits, htext, left_sub_size h hw, bind, Except.bind] at hl
  rcases hin.stop_le.lt_or_eq with hmore | hend
  · have hpos : Num.number ((tvb.len : ℤ) - b.stop) > 0 := (Num.number_pos _).2 (by omega)
    have hoffset : (tvb.len : Num) - .number ((tvb.len : ℤ) - b.stop) = (b.stop : Num) := by simp
    rw [if_pos hpos, hoffset] at hl
    rcases getBlock_spec tvb b.stop with hread | ⟨b', hread, hb'⟩
    · rw [hread] at hl
      cases hl
    · have hleft : Num.number ((tvb.len : ℤ) - b.stop) = (tvb.len : Num) - b'.offset := by
        rw [hb'.offset]
        rfl
      rw [hread] at hl
      simp only [] at hl
      split at hl
      · rename_i hvalid'
        cases hl
        refine .inl ⟨b.stop, hread, hvalid', hleft, fun texts offset hrest => ?_⟩
        rw [List.append_assoc]
        exact hp _ _ (.next hvalid hw hmore hfine.expandable hshows hread hrest)
      · rename_i hvalid'
        cases hl
        refine hp _ _ (.next hvalid hw hmore hfine.expandable hshows hread ?_)
        show PacketsShown tvb b' [] (askedAt tvb (some b') (.number _))
        rw [hleft]
        exact packetsShown_nil hb' (.inl (by simpa using hvalid'))
  · have hzero : Num.number ((tvb.len : ℤ) - b.stop) = 0 := by rw [hend, sub_self]; rfl
    have hnone : ¬ (0 : Num) > 0 := fun h => lt_irrefl (0 : ℤ) h
    rw [hzero, if_neg hnone] at hl
    cases hl
    refine .inr ⟨rfl, fun hsize => ?_, hp _ _ (.last hvalid hw hend hfine.expandable hshows)⟩
    rw [h.size_eq hw] at hsize
    have hsize' : b.stop - o ≤ 0 := Num.number_le_natCast.1 hsize
    omega

theorem packetLoop_shown {s : Block × Num × List String} (hs : ShownSoFar tvb p s) (hl : packetLoop tvb s = .ok next) :
    next.elim (ShownSoFar tvb p) (ShownAtEnd tvb p) := by
  obtain ⟨b, nBytesLeft, shown⟩ := s
  rcases hs with ⟨o, hread, hvalid, hleft, hp⟩ | ⟨hzero, hsize, hp⟩
  · obtain rfl : nBytesLeft = (tvb.len : Num) - b.offset := hleft
    have h := isBlock_of_getBlock hread
    by_cases hfits : Fits tvb b
    · cases htext : dissectPacket tvb b with
      | error e =>
        rw [packetLoop_of_error hfits htext] at hl
        cases hl
      | ok text =>
        cases hw : b.length.wide with
        | false => exact packetLoop_shown_fits h ⟨⟨o, hread⟩, hw, (fits_iff h hw).1 hfits⟩ hvalid htext hp hl
        | true =>
          rw [dissectPacket_of_wide h hw] at htext
          cases htext
    · rw [packetLoop_of_not_fits hfits] at hl
      cases hl
      have hend := hp [] _ (packetsShown_nil h (.inr hfits))
      rwa [List.append_nil] at hend
  · obtain rfl : nBytesLeft = 0 := hzero
    rw [packetLoop_of_not_fits hsize] at hl
    cases hl
    have hnone : askedAt tvb (some b) 0 = none := if_neg fun hpos => lt_irrefl (0 : ℤ) hpos.1
    show PacketsShown tvb p shown (askedAt tvb (some b) 0)
    rw [hnone]
    exact hp

/-! ## The report -/

omit [TvbStrings] in
theorem findNdnPacket_first (h : FirstPacket tvb o b) : findNdnPacket tvb = .ok (some b) := by
  rcases findNdnPacket_spec tvb with ⟨-, hno⟩ | ⟨o', b', hfind, -, hunique⟩
  · exact absurd h (hno o b)
  · rw [hfind, hunique o b h]

/-- What `dissector` returns if it does not fail. -/
theorem dissector_shown (hlen : tvb.len = tvb.reportedLen) (h : FirstPacket tvb o b) {report : Option Report}
    (hreport : dissector tvb = .ok report) : ∃ shown offset, report = some ⟨shown, offset⟩ ∧
      PacketsShown tvb b shown offset := by
  have hnot : ¬ tvb.len ≠ tvb.reportedLen := not_not.2 hlen
  simp only [dissector, if_neg hnot, findNdnPacket_first h] at hreport
  cases hrun : (packetLoop tvb).run .outOfFuel (tvb.len + 2) (b, (tvb.len : Num) - b.offset, []) with
  | error e =>
    rw [hrun] at hreport
    cases hreport
  | ok r =>
    rw [hrun] at hreport
    cases hreport
    refine ⟨_, _, rfl, ?_⟩
    refine TryLoop.run_inv (I := ShownSoFar tvb b) (Q := ShownAtEnd tvb b)
      (fun s s' hs hl => packetLoop_shown hs hl) (fun s r hs hl => packetLoop_shown hs hl) ?_ hrun
    exact .inl ⟨o, h.read, h.valid, rfl, fun _ _ hrest => hrest⟩

/-- Packets that are described from the first one on are reported so. -/
theorem dissector_of_shown (hlen : tvb.len = tvb.reportedLen) (h : FirstPacket tvb o b) {shown : List String}
    (hshown : PacketsShown tvb b shown offset) : dissector tvb = .ok (some ⟨shown, offset⟩) := by
  have hnot : ¬ tvb.len ≠ tvb.reportedLen := not_not.2 hlen
  have hpackets := packetLoop_spec h
  cases hloop : (packetLoop tvb).run .outOfFuel (tvb.len + 2) (b, (tvb.len : Num) - b.offset, []) with
  | error e =>
    rw [hloop] at hpackets
    exact absurd (hshown.dissectable h.valid) hpackets.2
  | ok r =>
    have hrun : ∃ report, dissector tvb = .ok report := by
      simp only [dissector, if_neg hnot, findNdnPacket_first h, hloop]
      exact ⟨_, rfl⟩
    obtain ⟨report, hreport⟩ := hrun
    obtain ⟨shown', offset', rfl, hshown'⟩ := dissector_shown hlen h hreport
    obtain ⟨rfl, rfl⟩ := hshown.unique _ _ (isBlock_of_getBlock h.read) hshown'
    exact hreport

/-- The dissector returns a report exactly if the buffer was captured as a whole and has a packet in it, from which on
the packets are described by the report. -/
theorem dissector_report_iff (tvb : Tvb) (shown : List String) (offset : Option Num) :
    dissector tvb = .ok (some ⟨shown, offset⟩) ↔
      tvb.len = tvb.reportedLen ∧ ∃ o b, FirstPacket tvb o b ∧ PacketsShown tvb b shown offset := by
  constructor
  · intro hreport
    by_cases hlen : tvb.len = tvb.reportedLen
    · refine ⟨hlen, ?_⟩
      rcases findNdnPacket_spec tvb with ⟨hfind, -⟩ | ⟨o, b, -, hfirst, -⟩
      · have hnot : ¬ tvb.len ≠ tvb.reportedLen := not_not.2 hlen
        simp only [dissector, if_neg hnot, hfind] at hreport
        cases hreport
      · obtain ⟨shown', offset', heq, hshown⟩ := dissector_shown hlen hfirst hreport
        cases heq
        exact ⟨o, b, hfirst, hshown⟩
    · unfold dissector at hreport
      rw [if_pos hlen] at hreport
      cases hreport
  · rintro ⟨hlen, o, b, hfirst, hshown⟩
    exact dissector_of_shown hlen hfirst hshown

end

/-- An Interest with a name, a selector, a nonce and a lifetime, and the beginning of a Data packet. -/
example :
    @dissector .documented ⟨[5, 19, 7, 3, 8, 1, 97, 9, 2, 18, 0, 10, 4, 1, 2, 3, 4, 12, 2, 15, 160, 6, 10, 7], 24⟩ =
      .ok (some ⟨[", Interest, Name: /a, Selectors: MustBeFresh: Yes, InterestLifetime: 4000"],
        some (21 : Num)⟩) := by
  decide +kernel

end NdnTools.Dissector
