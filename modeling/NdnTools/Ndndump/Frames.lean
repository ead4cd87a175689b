/-
Which frames ndndump takes apart: a grammar of the frames, with the sizes of the headers where they are written,
and that of a packet all of which was captured `onCapturedPacket` finds the payload of the frame that it is, and
prints where it was going; what is no frame it rejects, or it takes the payload to have a negative size.
-/
import NdnTools.Ndndump.Bounds
import NdnTools.Packet

namespace NdnTools.Ndndump

/-! ## The grammar -/

/-- The header of an IPv4 packet, with its options. The lower half of the first octet is its size in units of
four octets. -/
structure IpHeader where
  octets : Bytes
  size : (octets.getD 0 0).toNat % 16 * 4 = octets.length
  valid : 20 ≤ octets.length

def IpHeader.protocol (ip : IpHeader) : ℕ := (ip.octets.getD 9 0).toNat

/-- The four octets from `i` on in decimal. -/
def dotted (octets : Bytes) (i : ℕ) : String :=
  toString (octets.getD i 0).toNat ++ "." ++ toString (octets.getD (i + 1) 0).toNat ++ "." ++
    toString (octets.getD (i + 2) 0).toNat ++ "." ++ toString (octets.getD (i + 3) 0).toNat

def IpHeader.addresses (ip : IpHeader) : String :=
  "From: " ++ dotted ip.octets 12 ++ ", " ++ "To: " ++ dotted ip.octets 16

/-- The header of a TCP segment, with its options. The upper half of octet 12 is its size in units of four
octets. -/
structure TcpHeader where
  octets : Bytes
  size : (octets.getD 12 0).toNat / 16 * 4 = octets.length
  valid : 20 ≤ octets.length

/-- The headers between that of the data link and the payload. -/
inductive Tunnel
  | udp (ip : IpHeader) (protocol : ip.protocol = 17) (header : Bytes) (size : header.length = 8)
  | tcp (ip : IpHeader) (protocol : ip.protocol = 6) (header : TcpHeader)
  | ethernetFrame
  | ppp (skipped : Bytes) (size : skipped.length = 2)

def Tunnel.octets : Tunnel → Bytes
  | udp ip _ header _ => ip.octets ++ header
  | tcp ip _ header => ip.octets ++ header.octets
  | ethernetFrame => []
  | ppp skipped _ => skipped

/-- What is printed of it. -/
def Tunnel.text : Tunnel → String
  | udp ip _ _ _ => ip.addresses ++ ", Tunnel Type: UDP"
  | tcp ip _ _ => ip.addresses ++ ", Tunnel Type: TCP"
  | ethernetFrame => "Tunnel Type: EthernetFrame"
  | ppp _ _ => "Tunnel Type: PPP"

/-- The frame types. -/
def Tunnel.HasType (frameType : ℕ) : Tunnel → Prop
  | udp _ _ _ _ => frameType = 0x0800 ∨ frameType = 1
  | tcp _ _ _ => frameType = 0x0800 ∨ frameType = 1
  | ethernetFrame => frameType = 0x7777 ∨ frameType = 0x8624
  | ppp _ _ => frameType = 0x0077

/-- The header of the data link. The protocol of a PPP frame has one octet if that is odd. -/
inductive Link
  | ethernet (addresses : Bytes) (size : addresses.length = 12) (high low : UInt8)
  | pppLong (high low : UInt8) (even : high.toNat % 2 = 0)
  | pppShort (protocol : UInt8) (odd : protocol.toNat % 2 = 1)

namespace Link

def octets : Link → Bytes
  | ethernet addresses _ high low => addresses ++ [high, low]
  | pppLong high low _ => [high, low]
  | pppShort protocol _ => [protocol]

def frameType : Link → ℕ
  | ethernet _ _ high low => 256 * high.toNat + low.toNat
  | pppLong high low _ => 256 * high.toNat + low.toNat
  | pppShort protocol _ => protocol.toNat

def dataLinkType : Link → DataLinkType
  | ethernet _ _ _ _ => .en10mb
  | pppLong _ _ _ => .ppp
  | pppShort _ _ => .ppp

end Link

structure Frame where
  link : Link
  tunnel : Tunnel
  typed : tunnel.HasType link.frameType
  payload : Bytes

def Frame.octets (f : Frame) : Bytes := f.link.octets ++ (f.tunnel.octets ++ f.payload)

/-! ## Bytes of a packet -/

namespace Capture

/-- The `n` bytes from `i` on. -/
def bytes (c : Capture) (i n : ℕ) : Bytes := (List.range n).map fun k => c.packet (i + k)

variable {c : Capture}

@[simp] theorem length_bytes (c : Capture) (i n : ℕ) : (c.bytes i n).length = n := by simp [bytes]

theorem bytes_add (c : Capture) (i m n : ℕ) : c.bytes i (m + n) = c.bytes i m ++ c.bytes (i + m) n := by
  simp [bytes, List.range_add, Nat.add_assoc]

theorem byte_eq (c : Capture) {i n k : ℕ} (h : k < n) : ((c.bytes i n).getD k 0).toNat = c.byte (i + k) := by
  simp [bytes, byte, h]

/-- `l` stands at `i`. -/
def Stands (c : Capture) (i : ℕ) (l : Bytes) : Prop := c.bytes i l.length = l

theorem stands_bytes (c : Capture) (i n : ℕ) : c.Stands i (c.bytes i n) := by simp [Stands]

theorem stands_append {i : ℕ} {l l' : Bytes} : c.Stands i (l ++ l') ↔ c.Stands i l ∧ c.Stands (i + l.length) l' := by
  unfold Stands
  rw [List.length_append, bytes_add]
  constructor
  · intro h
    exact List.append_inj h (by simp)
  · rintro ⟨h, h'⟩
    rw [h, h']

theorem Stands.byte {i k : ℕ} {l : Bytes} (h : c.Stands i l) (hk : k < l.length) :
    c.byte (i + k) = (l.getD k 0).toNat := by
  rw [← byte_eq c hk, h]

theorem byte_lt (c : Capture) (i : ℕ) : c.byte i < 256 := (c.packet i).toNat_lt

theorem ntohs_eq (c : Capture) (i : ℕ) : c.ntohs i = 256 * c.byte i + c.byte (i + 1) := by
  have hlt := c.byte_lt (i + 1)
  rw [ntohs, Nat.shiftLeft_eq, Nat.mul_comm, ← Nat.two_pow_add_eq_or_of_lt (by omega)]

theorem ipHl_eq (c : Capture) (i : ℕ) : c.ipHl i = c.byte i % 16 := Nat.and_two_pow_sub_one_eq_mod _ 4

theorem thOff_eq (c : Capture) (i : ℕ) : c.thOff i = c.byte (i + 12) / 16 := by
  have hlt := c.byte_lt (i + 12)
  rw [thOff, Nat.shiftRight_and_distrib, Nat.shiftRight_eq_div_pow]
  show _ &&& 2 ^ 4 - 1 = _
  rw [Nat.and_two_pow_sub_one_eq_mod]
  exact Nat.mod_eq_of_lt (by omega)

end Capture

/-! ## What the functions take off -/

/-- `d'` is `d` with `n` bytes taken off and `text` printed. -/
structure Took (n : ℕ) (text : String) (d d' : Payload) : Prop where
  offset : d'.offset = d.offset + n
  size : d'.size = d.size - n
  os : d'.os = d.os ++ text
  cerr : d'.cerr = d.cerr

theorem Took.trans {n n' : ℕ} {text text' : String} {d d' d'' : Payload} (h : Took n text d d')
    (h' : Took n' text' d' d'') : Took (n + n') (text ++ text') d d'' where
  offset := by rw [h'.offset, h.offset, Nat.add_assoc]
  size := by
    rw [h'.size, h.size]
    push_cast
    ring
  os := by rw [h'.os, h.os, String.append_assoc]
  cerr := h'.cerr.trans h.cerr

variable {c : Capture} {d : Payload}

theorem skipUdpHeader_spec (d : Payload) :
    ((skipUdpHeader d).1 = true ↔ 8 ≤ d.size) ∧
      ((skipUdpHeader d).1 = true → Took 8 ", Tunnel Type: UDP" d (skipUdpHeader d).2) := by
  unfold skipUdpHeader
  dsimp only
  split
  · rename_i hneg
    have hshort : ¬ 8 ≤ d.size := by
      simp only [Payload.toCursor_skip, Cursor.size_skip] at hneg
      omega
    exact ⟨⟨nofun, fun h => absurd h hshort⟩, nofun⟩
  · rename_i hpos
    have hlong : 8 ≤ d.size := by
      simp only [Payload.toCursor_skip, Cursor.size_skip] at hpos
      omega
    exact ⟨⟨fun _ => hlong, fun _ => rfl⟩, fun _ => ⟨rfl, rfl, rfl, rfl⟩⟩

theorem skipTcpHeader_spec (c : Capture) (d : Payload) :
    ((skipTcpHeader c d).1 = true ↔ 20 ≤ c.thOff d.offset * 4 ∧ (c.thOff d.offset * 4 : ℕ) ≤ d.size) ∧
      ((skipTcpHeader c d).1 = true →
        Took (c.thOff d.offset * 4) ", Tunnel Type: TCP" d (skipTcpHeader c d).2) := by
  unfold skipTcpHeader
  dsimp only
  split
  · rename_i hinvalid
    exact ⟨⟨nofun, fun h => absurd h.1 (not_le.2 hinvalid)⟩, nofun⟩
  · rename_i hvalid
    have hvalid' := not_lt.1 hvalid
    split
    · rename_i hneg
      have hshort : ¬ ((c.thOff d.offset * 4 : ℕ) : ℤ) ≤ d.size := by
        simp only [Payload.toCursor_skip, Payload.toCursor_look, Cursor.size_skip, Cursor.size_look] at hneg
        omega
      exact ⟨⟨nofun, fun h => absurd h.2 hshort⟩, nofun⟩
    · rename_i hpos
      have hlong : ((c.thOff d.offset * 4 : ℕ) : ℤ) ≤ d.size := by
        simp only [Payload.toCursor_skip, Payload.toCursor_look, Cursor.size_skip, Cursor.size_look] at hpos
        omega
      exact ⟨⟨fun _ => ⟨hvalid', hlong⟩, fun _ => rfl⟩, fun _ => ⟨rfl, rfl, rfl, rfl⟩⟩

/-- The addresses in the header at `ip`. -/
def Capture.addresses (c : Capture) (ip : ℕ) : String :=
  "From: " ++ c.inetNtoa (ip + 12) ++ ", " ++ "To: " ++ c.inetNtoa (ip + 16)

/-- A header that is valid and fits is taken off, and then what it says follows. -/
theorem skipIpHeader_valid (hvalid : 20 ≤ c.ipHl d.offset * 4) (hfits : (c.ipHl d.offset * 4 : ℕ) ≤ d.size) :
    ∃ d', Took (c.ipHl d.offset * 4) (c.addresses d.offset) d d' ∧
      skipIpHeader c d = if c.ipProtocol d.offset = 17 then skipUdpHeader d'
        else if c.ipProtocol d.offset = 6 then skipTcpHeader c d' else (false, d') := by
  refine ⟨((((d.look [d.offset]).look ((List.range 8).map (d.offset + 12 + ·))).print (c.addresses d.offset)).skip
    (c.ipHl d.offset * 4)).look [d.offset + 9], ⟨rfl, rfl, rfl, rfl⟩, ?_⟩
  have hpos : ¬ ((((d.look [d.offset]).look ((List.range 8).map (d.offset + 12 + ·))).print
      (c.addresses d.offset)).skip (c.ipHl d.offset * 4)).size < 0 := by
    simp only [Payload.toCursor_skip, Payload.toCursor_print, Payload.toCursor_look, Cursor.size_skip,
      Cursor.size_look]
    omega
  unfold skipIpHeader
  unfold Capture.addresses at hpos ⊢
  dsimp only
  rw [if_neg (not_lt.2 hvalid), if_neg hpos]
  split
  · rename_i hudp
    rw [if_pos hudp]
  · rename_i htcp
    rw [if_neg (by rw [htcp]; decide), if_pos htcp]
  · rename_i hudp htcp
    rw [if_neg hudp, if_neg htcp]

theorem skipIpHeader_accepted (h : (skipIpHeader c d).1 = true) :
    20 ≤ c.ipHl d.offset * 4 ∧ (c.ipHl d.offset * 4 : ℕ) ≤ d.size := by
  unfold skipIpHeader at h
  dsimp only at h
  split at h
  · cases h
  · rename_i hvalid
    refine ⟨not_lt.1 hvalid, ?_⟩
    split at h
    · cases h
    · rename_i hpos
      simp only [Payload.toCursor_skip, Payload.toCursor_print, Payload.toCursor_look, Cursor.size_skip,
        Cursor.size_look] at hpos
      omega

/-! ## The headers of a frame -/

theorem Capture.Stands.dotted {i k : ℕ} {l : Bytes} (h : c.Stands i l) (hk : k + 4 ≤ l.length) :
    c.inetNtoa (i + k) = dotted l k := by
  unfold inetNtoa NdnTools.Ndndump.dotted
  rw [Nat.add_assoc i k 1, Nat.add_assoc i k 2, Nat.add_assoc i k 3, h.byte (by omega), h.byte (by omega),
    h.byte (by omega), h.byte (by omega)]

/-- What the fields of a header that stands in the packet are. -/
theorem IpHeader.fields (ip : IpHeader) {i : ℕ} (h : c.Stands i ip.octets) :
    c.ipHl i * 4 = ip.octets.length ∧ c.ipProtocol i = ip.protocol ∧ c.addresses i = ip.addresses := by
  have hlong := ip.valid
  refine ⟨?_, h.byte (by omega), ?_⟩
  · rw [c.ipHl_eq, ← ip.size, ← h.byte (by omega), Nat.add_zero]
  · rw [Capture.addresses, IpHeader.addresses, h.dotted (by omega), h.dotted (by omega)]

theorem TcpHeader.fields (tcp : TcpHeader) {i : ℕ} (h : c.Stands i tcp.octets) :
    c.thOff i * 4 = tcp.octets.length := by
  have hlong := tcp.valid
  rw [c.thOff_eq, ← tcp.size, ← h.byte (by omega)]

/-- The header that stands at `i` if its size is valid. -/
def Capture.ipHeader (c : Capture) (i : ℕ) (h : 20 ≤ c.ipHl i * 4) : IpHeader where
  octets := c.bytes i (c.ipHl i * 4)
  size := by rw [Capture.byte_eq c (by omega), Capture.length_bytes, Capture.ipHl_eq, Nat.add_zero]
  valid := by rw [Capture.length_bytes]; exact h

def Capture.tcpHeader (c : Capture) (i : ℕ) (h : 20 ≤ c.thOff i * 4) : TcpHeader where
  octets := c.bytes i (c.thOff i * 4)
  size := by rw [Capture.byte_eq c (by omega), Capture.length_bytes, Capture.thOff_eq]
  valid := by rw [Capture.length_bytes]; exact h

/-- The headers `tunnel` stand at the pointer, and the packet is long enough for them. -/
structure Fit (c : Capture) (frameType : ℕ) (d : Payload) (tunnel : Tunnel) : Prop where
  typed : tunnel.HasType frameType
  stands : c.Stands d.offset tunnel.octets
  fits : (tunnel.octets.length : ℤ) ≤ d.size

/-- The headers of a frame are taken off. -/
theorem Fit.took {frameType : ℕ} {tunnel : Tunnel} (h : Fit c frameType d tunnel) :
    (skipAndProcessFrameHeader c frameType d).1 = true ∧
      Took tunnel.octets.length tunnel.text d (skipAndProcessFrameHeader c frameType d).2 := by
  have hfits := h.fits
  cases tunnel with
  | udp ip protocol header size =>
    have hip : skipAndProcessFrameHeader c frameType d = skipIpHeader c d := by
      rcases h.typed with rfl | rfl
      · rfl
      · rfl
    rw [Tunnel.octets, List.length_append, size] at hfits ⊢
    obtain ⟨hhl, hprotocol, haddresses⟩ := ip.fields (Capture.stands_append.1 h.stands).1
    obtain ⟨d', htook, heq⟩ := skipIpHeader_valid (c := c) (d := d) (hhl ▸ ip.valid) (by omega)
    rw [hip, heq, if_pos (hprotocol.trans protocol)]
    rw [hhl, haddresses] at htook
    obtain ⟨haccepted, htook'⟩ := skipUdpHeader_spec d'
    have hsize := htook.size
    have hone := haccepted.2 (by omega)
    exact ⟨hone, htook.trans (htook' hone)⟩
  | tcp ip protocol header =>
    have hip : skipAndProcessFrameHeader c frameType d = skipIpHeader c d := by
      rcases h.typed with rfl | rfl
      · rfl
      · rfl
    obtain ⟨hstands, hstands'⟩ := Capture.stands_append.1 h.stands
    rw [Tunnel.octets, List.length_append] at hfits ⊢
    obtain ⟨hhl, hprotocol, haddresses⟩ := ip.fields hstands
    obtain ⟨d', htook, heq⟩ := skipIpHeader_valid (c := c) (d := d) (hhl ▸ ip.valid) (by omega)
    have hsix : c.ipProtocol d.offset = 6 := hprotocol.trans protocol
    rw [hip, heq, if_neg (by rw [hsix]; decide), if_pos hsix]
    rw [hhl, haddresses] at htook
    obtain ⟨haccepted, htook'⟩ := skipTcpHeader_spec c d'
    have hoff := header.fields hstands'
    rw [← htook.offset] at hoff
    rw [hoff] at haccepted htook'
    have hsize := htook.size
    have hone := haccepted.2 ⟨header.valid, by omega⟩
    exact ⟨hone, htook.trans (htook' hone)⟩
  | ethernetFrame =>
    rcases h.typed with rfl | rfl
    · exact ⟨rfl, rfl, (sub_zero _).symm, rfl, rfl⟩
    · exact ⟨rfl, rfl, (sub_zero _).symm, rfl, rfl⟩
  | ppp skipped size =>
    obtain rfl : frameType = 0x0077 := h.typed
    rw [Tunnel.octets, size]
    exact ⟨rfl, rfl, rfl, rfl, rfl⟩

theorem stands_headers {ip header : Bytes} {n : ℕ} (hip : ip = c.bytes d.offset n)
    (hheader : header = c.bytes (d.offset + n) header.length) : c.Stands d.offset (ip ++ header) := by
  subst hip
  refine Capture.stands_append.2 ⟨Capture.stands_bytes c _ _, ?_⟩
  rw [Capture.length_bytes]
  exact hheader.symm

/-- What is accepted as IP has the headers of a tunnel. -/
theorem fit_of_ip {frameType : ℕ} (htype : frameType = 0x0800 ∨ frameType = 1) (h : (skipIpHeader c d).1 = true) :
    ∃ tunnel, Fit c frameType d tunnel := by
  obtain ⟨hvalid, hfits⟩ := skipIpHeader_accepted h
  obtain ⟨d', htook, heq⟩ := skipIpHeader_valid hvalid hfits
  have hsize := htook.size
  have hprotocol : (c.ipHeader d.offset hvalid).protocol = c.ipProtocol d.offset := Capture.byte_eq c (by omega)
  rw [heq] at h
  split at h
  · rename_i hudp
    have hlong := (skipUdpHeader_spec d').1.1 h
    refine ⟨.udp (c.ipHeader d.offset hvalid) (hprotocol.trans hudp) (c.bytes (d.offset + c.ipHl d.offset * 4) 8)
      (Capture.length_bytes ..), htype, stands_headers rfl (by rw [Capture.length_bytes]), ?_⟩
    simp only [Tunnel.octets, Capture.ipHeader, List.length_append, Capture.length_bytes]
    omega
  · split at h
    · rename_i htcp
      obtain ⟨hvalid', hlong⟩ := (skipTcpHeader_spec c d').1.1 h
      rw [htook.offset] at hvalid' hlong
      refine ⟨.tcp (c.ipHeader d.offset hvalid) (hprotocol.trans htcp) (c.tcpHeader _ hvalid'), htype,
        stands_headers rfl (by simp only [Capture.tcpHeader, Capture.length_bytes]), ?_⟩
      simp only [Tunnel.octets, Capture.ipHeader, Capture.tcpHeader, List.length_append, Capture.length_bytes]
      omega
    · cases h

theorem fit_of_accepted {frameType : ℕ} (h : (skipAndProcessFrameHeader c frameType d).1 = true)
    (hsize : 0 ≤ (skipAndProcessFrameHeader c frameType d).2.size) : ∃ tunnel, Fit c frameType d tunnel := by
  unfold skipAndProcessFrameHeader at h hsize
  split at h
  · exact fit_of_ip (.inl rfl) h
  · exact fit_of_ip (.inr rfl) h
  · exact ⟨.ethernetFrame, .inl rfl, rfl, hsize⟩
  · exact ⟨.ethernetFrame, .inr rfl, rfl, hsize⟩
  · refine ⟨.ppp (c.bytes d.offset 2) (Capture.length_bytes ..), rfl, Capture.stands_bytes c _ _, ?_⟩
    have hsize' : 0 ≤ d.size - (2 : ℕ) := hsize
    rw [Tunnel.octets, Capture.length_bytes]
    omega
  · cases h

/-! ## The header of the data link -/

/-- The header `link` stands at the start. -/
structure Linked (c : Capture) (link : Link) : Prop where
  sameType : link.dataLinkType = c.dataLinkType
  stands : c.Stands 0 link.octets
  fits : link.octets.length ≤ c.len

/-- What the header says is what is read of it. -/
theorem Linked.fields {link : Link} (h : Linked c link) :
    dataLinkSize c = link.octets.length ∧ frameType c = link.frameType := by
  have hstands := h.stands
  unfold dataLinkSize frameType
  rw [← h.sameType]
  cases link with
  | ethernet addresses size high low =>
    have htype := (Capture.stands_append.1 hstands).2
    rw [size] at htype
    have hhigh : c.byte 12 = high.toNat := htype.byte (k := 0) Nat.zero_lt_two
    have hlow : c.byte 13 = low.toNat := htype.byte (k := 1) Nat.one_lt_two
    refine ⟨by simp [Link.octets, Link.dataLinkType, size], ?_⟩
    dsimp only [Link.dataLinkType, Link.frameType]
    rw [c.ntohs_eq, hhigh, hlow]
  | pppLong high low even =>
    have hhigh : c.byte 0 = high.toNat := hstands.byte (k := 0) Nat.zero_lt_two
    have hlow : c.byte 1 = low.toNat := hstands.byte (k := 1) Nat.one_lt_two
    have heven : c.byte 0 &&& 1 = 0 := by
      rw [hhigh, Nat.and_one_is_mod]
      exact even
    dsimp only [Link.dataLinkType, Link.frameType]
    rw [if_pos heven, if_pos heven, ← hhigh, ← hlow]
    exact ⟨rfl, c.ntohs_eq 0⟩
  | pppShort protocol odd =>
    have hprotocol : c.byte 0 = protocol.toNat := hstands.byte (k := 0) Nat.zero_lt_one
    have hodd : ¬ c.byte 0 &&& 1 = 0 := by
      rw [hprotocol, Nat.and_one_is_mod]
      omega
    dsimp only [Link.dataLinkType, Link.frameType]
    rw [if_neg hodd, if_neg hodd]
    exact ⟨rfl, hprotocol⟩

/-- A packet that is long enough starts with such a header. -/
theorem exists_linked (h : dataLinkSize c ≤ c.len) : ∃ link, Linked c link := by
  cases hlink : c.dataLinkType with
  | en10mb =>
    have hsize : dataLinkSize c = 14 := by rw [dataLinkSize, hlink]
    rw [hsize] at h
    refine ⟨.ethernet (c.bytes 0 12) (Capture.length_bytes ..) (c.packet 12) (c.packet 13), hlink.symm, ?_, ?_⟩
    · exact Capture.stands_append.2 ⟨Capture.stands_bytes c 0 12, by rw [Capture.length_bytes]; rfl⟩
    · rw [Link.octets, List.length_append, Capture.length_bytes]
      exact h
  | ppp =>
    by_cases heven : c.byte 0 % 2 = 0
    · have hsize : dataLinkSize c = 2 := by
        rw [dataLinkSize, hlink]
        exact if_pos ((Nat.and_one_is_mod _).trans heven)
      rw [hsize] at h
      exact ⟨.pppLong (c.packet 0) (c.packet 1) heven, hlink.symm, rfl, h⟩
    · have hsize : dataLinkSize c = 1 := by
        rw [dataLinkSize, hlink]
        exact if_neg fun hzero => heven ((Nat.and_one_is_mod _).symm.trans hzero)
      have hodd : (c.packet 0).toNat % 2 = 1 := Nat.mod_two_ne_zero.1 heven
      rw [hsize] at h
      exact ⟨.pppShort (c.packet 0) hodd, hlink.symm, rfl, h⟩

/-- Nothing is printed yet. -/
theorem skipDataLinkHeader_silent {t : ℕ} (h : (skipDataLinkHeaderAndGetFrameType c d).1 = some t) :
    (skipDataLinkHeaderAndGetFrameType c d).2.os = d.os ∧ (skipDataLinkHeaderAndGetFrameType c d).2.cerr = d.cerr := by
  unfold skipDataLinkHeaderAndGetFrameType at h ⊢
  cases hlink : c.dataLinkType with
  | en10mb =>
    rw [hlink] at h
    dsimp only at h ⊢
    split at h
    · cases h
    · rename_i hpos
      rw [if_neg hpos]
      exact ⟨rfl, rfl⟩
  | ppp =>
    rw [hlink] at h
    dsimp only at h ⊢
    by_cases heven : c.byte d.offset &&& 1 = 0
    · simp only [if_pos heven] at h ⊢
      split at h
      · cases h
      · rename_i hpos
        rw [if_neg hpos]
        exact ⟨rfl, rfl⟩
    · simp only [if_neg heven] at h ⊢
      split at h
      · cases h
      · rename_i hpos
        rw [if_neg hpos]
        exact ⟨rfl, rfl⟩

theorem Linked.took {link : Link} (h : Linked c link) :
    (skipDataLinkHeaderAndGetFrameType c (wholePacket c)).1 = some link.frameType ∧
      Took link.octets.length "" (wholePacket c) (skipDataLinkHeaderAndGetFrameType c (wholePacket c)).2 := by
  have hfits := h.fits
  obtain ⟨hsize, htype⟩ := h.fields
  rw [← htype, ← hsize]
  rcases (skipDataLinkHeader_taken c).2 with ⟨hsome, hoffset, hend⟩ | ⟨-, hshort⟩
  · obtain ⟨hos, hcerr⟩ := skipDataLinkHeader_silent hsome
    refine ⟨hsome, ?_, ?_, hos.trans String.append_empty.symm, hcerr⟩
    · rw [hoffset]
      exact (Nat.zero_add _).symm
    · have hwhole : (wholePacket c).size = c.len := rfl
      unfold Cursor.EndsAt at hend
      omega
  · omega

/-! ## Packets and frames -/

/-- The packet is the frame `f`. -/
def IsFrame (c : Capture) (f : Frame) : Prop := f.link.dataLinkType = c.dataLinkType ∧ c.bytes 0 c.len = f.octets

theorem IsFrame.len {f : Frame} (h : IsFrame c f) :
    c.len = f.link.octets.length + (f.tunnel.octets.length + f.payload.length) := by
  rw [← c.length_bytes 0 c.len, h.2, Frame.octets, List.length_append, List.length_append]

theorem IsFrame.took {f : Frame} (h : IsFrame c f) :
    (onCapturedPacket c).1 = true ∧
      Took (f.link.octets.length + f.tunnel.octets.length) f.tunnel.text (wholePacket c) (onCapturedPacket c).2 ∧
      c.bytes (onCapturedPacket c).2.offset (onCapturedPacket c).2.size.toNat = f.payload := by
  have hlen := h.len
  have hstands : c.Stands 0 f.octets := by
    rw [Capture.Stands, ← h.2, Capture.length_bytes]
  obtain ⟨hlink, hrest⟩ := Capture.stands_append.1 hstands
  obtain ⟨htunnel, hpayload⟩ := Capture.stands_append.1 hrest
  obtain ⟨hsome, htook⟩ := Linked.took ⟨h.1, hlink, by omega⟩
  unfold onCapturedPacket
  generalize skipDataLinkHeaderAndGetFrameType c (wholePacket c) = r at hsome htook
  obtain ⟨t, d⟩ := r
  obtain rfl : t = some f.link.frameType := hsome
  have hoffset := htook.offset
  have hsize := htook.size
  have hwhole : (wholePacket c).size = c.len := rfl
  have hstart : (wholePacket c).offset = 0 := rfl
  dsimp only at hoffset hsize htook ⊢
  have hfit : Fit c f.link.frameType d f.tunnel := by
    refine ⟨f.typed, ?_, by omega⟩
    rw [hoffset]
    exact htunnel
  obtain ⟨hone, htook'⟩ := hfit.took
  have hall := htook.trans htook'
  rw [String.empty_append] at hall
  refine ⟨hone, hall, ?_⟩
  have hoffset' := hall.offset
  have hsize' := hall.size
  rw [hoffset', show (skipAndProcessFrameHeader c f.link.frameType d).2.size.toNat = f.payload.length by omega,
    hstart, ← Nat.add_assoc]
  exact hpayload

theorem exists_isFrame (h : (onCapturedPacket c).1 = true) (hsize : 0 ≤ (onCapturedPacket c).2.size) :
    ∃ f, IsFrame c f := by
  unfold onCapturedPacket at h hsize
  rcases (skipDataLinkHeader_taken c).2 with ⟨hsome, hoffset, hend⟩ | ⟨hnone, -⟩
  · generalize skipDataLinkHeaderAndGetFrameType c (wholePacket c) = r at hsome hoffset hend h hsize
    obtain ⟨t, d⟩ := r
    obtain rfl : t = some (frameType c) := hsome
    dsimp only at h hsize hoffset hend
    obtain ⟨tunnel, hfit⟩ := fit_of_accepted h hsize
    have hfits := hfit.fits
    unfold Cursor.EndsAt at hend
    obtain ⟨link, hlinked⟩ := exists_linked (c := c) (by omega)
    obtain ⟨hlinkSize, htype⟩ := hlinked.fields
    have hlen : c.len = link.octets.length +
        (tunnel.octets.length + (c.len - link.octets.length - tunnel.octets.length)) := by omega
    refine ⟨⟨link, tunnel, htype ▸ hfit.typed,
      c.bytes (link.octets.length + tunnel.octets.length) (c.len - link.octets.length - tunnel.octets.length)⟩,
      hlinked.sameType, ?_⟩
    have hstands : c.Stands d.offset tunnel.octets := hfit.stands
    rw [hoffset, hlinkSize] at hstands
    rw [Frame.octets]
    conv_lhs => rw [hlen, c.bytes_add, c.bytes_add, Nat.zero_add, hlinked.stands, hstands]
  · generalize skipDataLinkHeaderAndGetFrameType c (wholePacket c) = r at hnone h
    obtain ⟨t, d⟩ := r
    obtain rfl : t = none := hnone
    cases h

/-- What ndndump gives to `Block::fromBuffer` and prints of a packet that was captured as a whole: the packet is a
frame with this payload, to the addresses printed. -/
theorem accepted_iff_frame (c : Capture) (text : String) (payload : Bytes) :
    ((onCapturedPacket c).1 = true ∧ 0 ≤ (onCapturedPacket c).2.size ∧
      c.bytes (onCapturedPacket c).2.offset (onCapturedPacket c).2.size.toNat = payload ∧
      (onCapturedPacket c).2.os = printInterceptTime c ++ text ∧ (onCapturedPacket c).2.cerr = []) ↔
    ∃ f, IsFrame c f ∧ f.payload = payload ∧ f.tunnel.text = text := by
  constructor
  · rintro ⟨hone, hsize, hpayload, hos, -⟩
    obtain ⟨f, hf⟩ := exists_isFrame hone hsize
    obtain ⟨-, htook, hpayload'⟩ := hf.took
    refine ⟨f, hf, hpayload'.symm.trans hpayload, ?_⟩
    have htext : printInterceptTime c ++ f.tunnel.text = printInterceptTime c ++ text := htook.os.symm.trans hos
    exact String.append_right_inj _ |>.1 htext
  · rintro ⟨f, hf, rfl, rfl⟩
    obtain ⟨hone, htook, hpayload⟩ := hf.took
    refine ⟨hone, ?_, hpayload, htook.os, htook.cerr⟩
    have hsize := htook.size
    have hwhole : (wholePacket c).size = c.len := rfl
    have hlen := hf.len
    omega

end NdnTools.Ndndump
