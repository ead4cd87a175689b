/-
Whether ndndump stays inside of the captured bytes. Its checks come after the bytes have been read, or
not at all, and they compare with the size of the packet on the wire, not with what was captured. So it
stays inside exactly if the bytes it looks at were captured, and all of the packet was if it is not
rejected.
-/
import NdnTools.Ndndump.Model

namespace NdnTools.Ndndump

/-- No byte of a header is read outside of the capture, and what is given to `Block::fromBuffer` is
inside of it. -/
def StaysInside (c : Capture) : Prop :=
  (∀ i ∈ (onCapturedPacket c).2.reads, i < c.caplen) ∧
    ((onCapturedPacket c).1 = true →
      0 ≤ (onCapturedPacket c).2.size ∧ (onCapturedPacket c).2.offset + (onCapturedPacket c).2.size ≤ c.caplen)

/-! ## The condition -/

/-- All of the packet was captured. -/
def Whole (c : Capture) : Prop := c.caplen = c.len

/-- The size of the header of the data link. -/
def dataLinkSize (c : Capture) : ℕ :=
  match c.dataLinkType with
  | .en10mb => 14
  | .ppp => if c.byte 0 &&& 1 = 0 then 2 else 1

/-- The frame type that stands in it. -/
def frameType (c : Capture) : ℕ :=
  match c.dataLinkType with
  | .en10mb => c.ntohs 12
  | .ppp => if c.byte 0 &&& 1 = 0 then c.byte 0 <<< 8 ||| c.byte 1 else c.byte 0

def UdpFits (c : Capture) (udp : ℕ) : Prop := udp + 8 ≤ c.len → Whole c

/-- The byte with the size of the header was captured. -/
def TcpFits (c : Capture) (tcp : ℕ) : Prop :=
  tcp + 12 < c.caplen ∧ (20 ≤ c.thOff tcp * 4 → tcp + c.thOff tcp * 4 ≤ c.len → Whole c)

/-- The first byte was captured, and the 20 bytes of the header if its size is valid. -/
def IpFits (c : Capture) (ip : ℕ) : Prop :=
  ip < c.caplen ∧
    (20 ≤ c.ipHl ip * 4 → ip + 20 ≤ c.caplen ∧
      (ip + c.ipHl ip * 4 ≤ c.len →
        match c.ipProtocol ip with
        | 17 => UdpFits c (ip + c.ipHl ip * 4)
        | 6 => TcpFits c (ip + c.ipHl ip * 4)
        | _ => True))

/-- What an NDN frame is not checked for holds of it. -/
def FrameFits (c : Capture) (frame : ℕ) (frameType : ℕ) : Prop :=
  match frameType with
  | 0x0800 | 1 => IpFits c frame
  | 0x7777 | 0x8624 => frame ≤ c.len ∧ Whole c
  | 0x0077 => frame + 2 ≤ c.len ∧ Whole c
  | _ => True

def Fits (c : Capture) : Prop := dataLinkSize c ≤ c.caplen ∧ FrameFits c (dataLinkSize c) (frameType c)

/-! ## The frame -/

variable {c : Capture} {d : Payload}

/-- `StaysInside` of what a function returns. -/
def Inside (c : Capture) (r : Bool × Payload) : Prop :=
  r.2.Within c.caplen ∧ (r.1 = true → 0 ≤ r.2.size ∧ r.2.offset + r.2.size ≤ c.caplen)

theorem inside_rejected : Inside c (false, d) ↔ d.Within c.caplen := by simp [Inside]

/-- What is not rejected ends where the packet ends. -/
theorem inside_accepted (h : d.EndsAt c.len) : Inside c (true, d) ↔ d.Within c.caplen ∧ d.offset ≤ c.len ∧ Whole c := by
  have hcap := c.captured
  unfold Inside Whole
  unfold Cursor.EndsAt at h
  refine and_congr_right fun _ => ⟨fun hin => ?_, fun hin _ => ?_⟩
  · have hsize := hin rfl
    dsimp only at hsize
    omega
  · dsimp only
    omega

/-- A header is taken off and the size checked. -/
theorem inside_skip (h : d.EndsAt c.len) (n : ℕ) (message text : String) :
    Inside c (if (d.skip n).size < 0 then (false, (d.skip n).complain message) else (true, (d.skip n).print text)) ↔
      d.Within c.caplen ∧ (d.offset + n ≤ c.len → Whole c) := by
  have hend : (d.skip n).EndsAt c.len := Cursor.endsAt_skip_iff.2 h
  have hsize : 0 ≤ (d.skip n).size ↔ d.offset + n ≤ c.len := hend.size_nonneg_iff
  split
  · rename_i hneg
    have hlong : ¬ d.offset + n ≤ c.len := fun hle => absurd (hsize.2 hle) (not_le.2 hneg)
    simp [inside_rejected, hlong]
  · rename_i hpos
    have hle : d.offset + n ≤ c.len := hsize.1 (not_lt.1 hpos)
    rw [inside_accepted (d := (d.skip n).print text) hend]
    simp [hle]

theorem inside_udp (h : d.EndsAt c.len) : Inside c (skipUdpHeader d) ↔ d.Within c.caplen ∧ UdpFits c d.offset :=
  inside_skip h 8 _ _

theorem inside_tcp (h : d.EndsAt c.len) : Inside c (skipTcpHeader c d) ↔ d.Within c.caplen ∧ TcpFits c d.offset := by
  unfold skipTcpHeader TcpFits
  dsimp only
  split
  · rename_i hshort
    have hno : ¬ 20 ≤ c.thOff d.offset * 4 := not_le.2 hshort
    simp [inside_rejected, hno]
  · rename_i hn
    rw [inside_skip (d := d.look [d.offset + 12]) h]
    simp [not_lt.1 hn, and_assoc]

/-- The addresses are the last bytes of the 20. -/
theorem addresses_captured_iff {ip caplen : ℕ} :
    (∀ i ∈ (List.range 8).map (ip + 12 + ·), i < caplen) ↔ ip + 20 ≤ caplen := by
  simp only [List.mem_map, List.mem_range, forall_exists_index, and_imp]
  constructor
  · intro h
    have hlast := h _ 7 (by omega) rfl
    omega
  · rintro h _ i hi rfl
    omega

theorem inside_ip (h : d.EndsAt c.len) : Inside c (skipIpHeader c d) ↔ d.Within c.caplen ∧ IpFits c d.offset := by
  unfold skipIpHeader IpFits
  dsimp only
  split
  · rename_i hshort
    have hno : ¬ 20 ≤ c.ipHl d.offset * 4 := not_le.2 hshort
    simp [inside_rejected, hno]
  · rename_i hn
    have hvalid : 20 ≤ c.ipHl d.offset * 4 := not_lt.1 hn
    generalize "From: " ++ c.inetNtoa (d.offset + 12) ++ ", " ++ "To: " ++ c.inetNtoa (d.offset + 16) = addresses
    generalize hd : (((d.look [d.offset]).look ((List.range 8).map (d.offset + 12 + ·))).print addresses).skip
      (c.ipHl d.offset * 4) = d'
    have hoffset : d'.offset = d.offset + c.ipHl d.offset * 4 := by rw [← hd]; rfl
    have hend : d'.EndsAt c.len := by
      rw [← hd]
      exact Cursor.endsAt_skip_iff.2 h
    have hwithin : d'.Within c.caplen ↔ d.Within c.caplen ∧ d.offset < c.caplen ∧ d.offset + 20 ≤ c.caplen := by
      rw [← hd]
      simp only [Payload.toCursor_skip, Payload.toCursor_print, Payload.toCursor_look, Cursor.within_skip_iff,
        Cursor.within_look_iff, addresses_captured_iff, List.mem_singleton, forall_eq, and_assoc]
    have hsize := hend.size_nonneg_iff
    rw [hoffset] at hsize
    split
    · rename_i hneg
      have hlong : ¬ d.offset + c.ipHl d.offset * 4 ≤ c.len := fun hle => absurd (hsize.2 hle) (not_le.2 hneg)
      simp [inside_rejected, hwithin, hvalid, hlong]
    · rename_i hpos
      have hle : d.offset + c.ipHl d.offset * 4 ≤ c.len := hsize.1 (not_lt.1 hpos)
      -- the protocol is one of the bytes that were captured already
      have hprotocol : (d'.look [d.offset + 9]).Within c.caplen ↔
          d.Within c.caplen ∧ d.offset < c.caplen ∧ d.offset + 20 ≤ c.caplen := by
        rw [Payload.toCursor_look, Cursor.within_look_iff, hwithin]
        simp only [List.mem_singleton, forall_eq]
        exact and_iff_left_of_imp fun hin => by omega
      have hend' : (d'.look [d.offset + 9]).EndsAt c.len := hend
      generalize c.ipProtocol d.offset = ipProtocol
      split
      · rw [inside_udp hend', hprotocol]
        simp [hvalid, hle, hoffset, and_assoc]
      · rw [inside_tcp hend', hprotocol]
        simp [hvalid, hle, hoffset, and_assoc]
      · rw [inside_rejected, hprotocol]
        simp [hvalid, hle]

theorem inside_frame (h : d.EndsAt c.len) (frameType : ℕ) :
    Inside c (skipAndProcessFrameHeader c frameType d) ↔ d.Within c.caplen ∧ FrameFits c d.offset frameType := by
  unfold skipAndProcessFrameHeader FrameFits
  split
  · exact inside_ip h
  · exact inside_ip h
  · exact inside_accepted (d := d.print _) h
  · exact inside_accepted (d := d.print _) h
  · exact inside_accepted (d := (d.print _).skip 2) (Cursor.endsAt_skip_iff.2 h)
  · simp [inside_rejected]

/-! ## The packet -/

/-- What `skipDataLinkHeaderAndGetFrameType` returns for a header of `size` bytes: the frame type with the
cursor behind the header, or nothing, and then the header reaches beyond the packet. -/
def HeaderTaken (c : Capture) (size frameType : ℕ) (r : Option ℕ × Payload) : Prop :=
  (r.2.Within c.caplen ↔ size ≤ c.caplen) ∧
    ((r.1 = some frameType ∧ r.2.offset = size ∧ r.2.EndsAt c.len) ∨ (r.1 = none ∧ c.len < size))

/-- The size is checked when the header has been read. -/
theorem headerTaken_check {size frameType : ℕ} (hend : d.EndsAt c.len) (hoffset : d.offset = size)
    (hwithin : d.Within c.caplen ↔ size ≤ c.caplen) (message : String) :
    HeaderTaken c size frameType (if d.size < 0 then (none, d.complain message) else (some frameType, d)) := by
  have hsize := hend.size_nonneg_iff
  split
  · exact ⟨hwithin, .inr ⟨rfl, by omega⟩⟩
  · exact ⟨hwithin, .inl ⟨rfl, hoffset, hend⟩⟩

theorem skipDataLinkHeader_taken (c : Capture) :
    HeaderTaken c (dataLinkSize c) (frameType c) (skipDataLinkHeaderAndGetFrameType c (wholePacket c)) := by
  have hend : (wholePacket c).EndsAt c.len := Cursor.endsAt_start c.len
  have hwithin : (wholePacket c).Within c.caplen := Cursor.within_start c.caplen c.len
  have hzero : (wholePacket c).offset = 0 := rfl
  unfold skipDataLinkHeaderAndGetFrameType frameType dataLinkSize
  cases c.dataLinkType with
  | en10mb =>
    -- the size is not negative yet
    have hpos : ¬ (wholePacket c).size < 0 := not_lt.2 (Int.natCast_nonneg c.len)
    dsimp only
    rw [if_neg hpos]
    refine ⟨?_, .inl ⟨rfl, rfl, Cursor.endsAt_skip_iff.2 hend⟩⟩
    simp only [Payload.toCursor_skip, Payload.toCursor_look, Cursor.within_skip_iff, Cursor.within_look_iff, hwithin,
      hzero, List.mem_cons, List.not_mem_nil, or_false, forall_eq_or_imp, forall_eq, true_and]
    omega
  | ppp =>
    dsimp only
    rw [hzero]
    by_cases hodd : c.byte 0 &&& 1 = 0
    · simp only [if_pos hodd]
      refine headerTaken_check (Cursor.endsAt_skip_iff.2 (Cursor.endsAt_skip_iff.2 hend)) (by rfl) ?_ _
      simp only [Payload.toCursor_skip, Payload.toCursor_look, Cursor.within_skip_iff, Cursor.within_look_iff, hwithin,
        Cursor.offset_skip, Cursor.offset_look, hzero, List.mem_singleton, forall_eq, true_and]
      omega
    · simp only [if_neg hodd]
      refine headerTaken_check (Cursor.endsAt_skip_iff.2 hend) (by rfl) ?_ _
      simp only [Payload.toCursor_skip, Payload.toCursor_look, Cursor.within_skip_iff, Cursor.within_look_iff, hwithin,
        List.mem_singleton, forall_eq, true_and]
      omega

theorem staysInside_iff_fits (c : Capture) : StaysInside c ↔ Fits c := by
  have hcap := c.captured
  obtain ⟨hwithin, htaken⟩ := skipDataLinkHeader_taken c
  unfold StaysInside onCapturedPacket Fits
  generalize skipDataLinkHeaderAndGetFrameType c (wholePacket c) = r at hwithin htaken ⊢
  obtain ⟨type, d⟩ := r
  rcases htaken with ⟨rfl, hoffset, hend⟩ | ⟨rfl, hshort⟩
  · have hiff := inside_frame hend (frameType c)
    rw [hwithin, hoffset] at hiff
    exact hiff
  · have hnot : ¬ dataLinkSize c ≤ c.caplen := by omega
    constructor
    · rintro ⟨hin, -⟩
      exact absurd (hwithin.1 hin) hnot
    · rintro ⟨hlong, -⟩
      exact absurd hlong hnot

/-- An NDN frame of 1500 bytes on the Ethernet of which 60 were captured. -/
def truncatedFrame : Capture where
  dataLinkType := .en10mb
  tvSec := 0
  tvUsec := 0
  caplen := 60
  len := 1500
  packet i := if i = 12 then 0x86 else if i = 13 then 0x24 else 0
  captured := by decide
  fits := by decide

/-- A PPP frame of two bytes, all of it captured. -/
def shortFrame : Capture where
  dataLinkType := .ppp
  tvSec := 0
  tvUsec := 0
  caplen := 2
  len := 2
  packet i := if i = 0 then 0x77 else 0
  captured := le_rfl
  fits := by decide

/-- The end of the first is taken to be where it ended on the wire, and the second has the size -1. -/
theorem frames_exceed_capture : ¬ StaysInside truncatedFrame ∧ ¬ StaysInside shortFrame := by
  constructor
  · rintro ⟨-, hin⟩
    have hend := (hin (by decide)).2
    revert hend
    decide
  · rintro ⟨-, hin⟩
    have hsize := (hin (by decide)).1
    revert hsize
    decide

end NdnTools.Ndndump
