/-
What ndndump prints of a capture: `Ndndump::onCapturedPacket` (`ndndump.cpp`) as a whole, for one packet after the
other. Frames with Interests, Data and Nacks are printed in their order, one line each, if the filter matches the
name; and the first NDNLPv2 packet that cannot be decoded ends the program.

What ndn-cxx makes of blocks and names, and what its exceptions say, are parameters.
-/
import NdnTools.Lib.Tlv
import NdnTools.Ndndump.Frames

namespace NdnTools.Ndndump

open Tlv (Block)

structure LpPacket where
  /-- `FragmentField`. -/
  fragment : Option Bytes
  /-- The reason in `NackField`. -/
  nack : Option NackReason
  deriving Repr, DecidableEq

class NetworkPackets where
  lpPacket : Block → Except String LpPacket
  /-- The name, and what is printed of the Interest. -/
  interest : Block → Except String (Name × String)
  data : Block → Except String Name
  toUri : Name → String

export NetworkPackets (toUri)

/-- The lines of `std::cout` and of `std::cerr`, and the exception that leaves the program. -/
structure Output where
  cout : List String
  cerr : List String
  thrown : Option String
  deriving Repr, DecidableEq

/-- A block as ndn-cxx encodes them. -/
structure Encoded (block : Block) : Prop where
  type : block.type < 2 ^ 32
  length : block.value.length < 2 ^ 64
  wire : block.hasWire = true

theorem Encoded.fromBuffer {block : Block} (h : Encoded block) (rest : Bytes) :
    Block.fromBuffer (block.wire ++ rest) = some block := Tlv.fromBuffer_wire h.type h.length h.wire rest

section
variable [NetworkPackets]

/-- No regular expression matches anything. -/
def matchesFilter (nameFilter : Option (String → Bool)) (name : Name) : Bool :=
  match nameFilter with
  | none => true
  | some regex => regex (toUri name)

/-- The `try` block. -/
def printNetPacket (nameFilter : Option (String → Bool)) (os : String) (lpPacket : LpPacket) (netPacket : Block) :
    Output :=
  if netPacket.type = 0x05 then
    match NetworkPackets.interest netPacket with
    | .error e => ⟨[], [e], none⟩
    | .ok (name, text) =>
      if matchesFilter nameFilter name then
        match lpPacket.nack with
        | some reason => ⟨[os ++ ", NACK: " ++ reason.toString ++ ", " ++ text], [], none⟩
        | none => ⟨[os ++ ", INTEREST: " ++ text], [], none⟩
      else ⟨[], [], none⟩
  else if netPacket.type = 0x06 then
    match NetworkPackets.data netPacket with
    | .error e => ⟨[], [e], none⟩
    | .ok name => if matchesFilter nameFilter name then ⟨[os ++ ", DATA: " ++ toUri name], [], none⟩ else ⟨[], [], none⟩
  else ⟨[os ++ ", UNKNOWN-NETWORK-PACKET"], [], none⟩

/-- What follows `Block::fromBuffer`. -/
def printBlock (nameFilter : Option (String → Bool)) (os : String) (block : Block) : Output :=
  if block.type = 100 then
    match NetworkPackets.lpPacket block with
    | .error e => ⟨[], [], some e⟩
    | .ok lpPacket =>
      match lpPacket.fragment with
      | none => ⟨[os ++ ", NDNLPv2-IDLE"], [], none⟩
      | some fragment =>
        match Block.fromBuffer fragment with
        | none => ⟨[os ++ ", NDNLPv2-FRAGMENT"], [], none⟩
        | some netPacket => printNetPacket nameFilter os lpPacket netPacket
  else printNetPacket nameFilter os ⟨none, none⟩ block

/-- `payloadSize` as a `size_t`. -/
def sizeT (size : ℤ) : ℕ := (size % 2 ^ 64).toNat

/-- `onCapturedPacket` as a whole. -/
def printPacket (nameFilter : Option (String → Bool)) (c : Capture) : Output :=
  let (isFrame, d) := onCapturedPacket c
  if isFrame then
    match Block.fromBuffer (c.bytes d.offset (sizeT d.size)) with
    | none =>
      if 0 < d.size then ⟨[d.os ++ ", INCOMPLETE-PACKET, size: " ++ toString d.size], d.cerr, none⟩
      else ⟨[], d.cerr, none⟩
    | some block =>
      let output := printBlock nameFilter d.os block
      { output with cerr := d.cerr ++ output.cerr }
  else ⟨[], d.cerr, none⟩

/-- The calls by `pcap_loop`, which an exception leaves. -/
def printPackets (nameFilter : Option (String → Bool)) : List Capture → Output
  | [] => ⟨[], [], none⟩
  | c :: cs =>
    let output := printPacket nameFilter c
    match output.thrown with
    | some _ => output
    | none =>
      let rest := printPackets nameFilter cs
      ⟨output.cout ++ rest.cout, output.cerr ++ rest.cerr, rest.thrown⟩

/-! ## What is sent -/

inductive Message
  | interest (name : Name) (text : String)
  | nack (reason : NackReason) (name : Name) (text : String)
  | data (name : Name)

def Message.name : Message → Name
  | interest name _ => name
  | nack _ name _ => name
  | data name => name

def Message.text : Message → String
  | interest _ text => ", INTEREST: " ++ text
  | nack reason _ text => ", NACK: " ++ (reason.toString ++ (", " ++ text))
  | data name => ", DATA: " ++ toUri name

/-- The network packet of a message, with the reason of a Nack beside it. -/
inductive Decodes : Option NackReason → Block → Message → Prop
  | interest {block name text} (type : block.type = 0x05) (h : NetworkPackets.interest block = .ok (name, text)) :
    Decodes none block (.interest name text)
  | nack {block name text} (reason) (type : block.type = 0x05)
    (h : NetworkPackets.interest block = .ok (name, text)) : Decodes (some reason) block (.nack reason name text)
  | data {reason block name} (type : block.type = 0x06) (h : NetworkPackets.data block = .ok name) :
    Decodes reason block (.data name)

/-- The payload starts with a message, alone or as the fragment of an NDNLPv2 packet. -/
inductive Carries : Bytes → Message → Prop
  | bare {block m} (hwire : Encoded block) (h : Decodes none block m) (rest) : Carries (block.wire ++ rest) m
  | lp {block netPacket reason m} (hwire : Encoded block) (type : block.type = 100) (padding)
    (h : NetworkPackets.lpPacket block = .ok ⟨some (netPacket.wire ++ padding), reason⟩) (hnet : Encoded netPacket)
    (hm : Decodes reason netPacket m) (rest) : Carries (block.wire ++ rest) m

variable {nameFilter : Option (String → Bool)} {c : Capture}

/-- A message is printed if the filter matches its name. -/
def printed (nameFilter : Option (String → Bool)) (os : String) (m : Message) : List String :=
  if matchesFilter nameFilter m.name then [os ++ m.text] else []

theorem printNetPacket_decodes {reason : Option NackReason} {fragment : Option Bytes} {block : Block} {m : Message}
    (h : Decodes reason block m) (os : String) :
    printNetPacket nameFilter os ⟨fragment, reason⟩ block = ⟨printed nameFilter os m, [], none⟩ := by
  unfold printNetPacket printed
  cases hmatch : matchesFilter nameFilter m.name with
  | true =>
    rw [if_pos rfl]
    cases h with
    | interest type h =>
      rw [if_pos type, h]
      refine (if_pos hmatch).trans ?_
      rw [Message.text, String.append_assoc]
    | nack reason type h =>
      rw [if_pos type, h]
      refine (if_pos hmatch).trans ?_
      simp only [Message.text, String.append_assoc]
    | data type h =>
      rw [if_neg (by rw [type]; decide), if_pos type, h]
      refine (if_pos hmatch).trans ?_
      rw [Message.text, String.append_assoc]
  | false =>
    have hno : ¬ matchesFilter nameFilter m.name = true := Bool.eq_false_iff.1 hmatch
    rw [if_neg Bool.false_ne_true]
    cases h with
    | interest type h =>
      rw [if_pos type, h]
      exact if_neg hno
    | nack reason type h =>
      rw [if_pos type, h]
      exact if_neg hno
    | data type h =>
      rw [if_neg (by rw [type]; decide), if_pos type, h]
      exact if_neg hno

theorem printBlock_carries (nameFilter : Option (String → Bool)) {payload : Bytes} {m : Message}
    (h : Carries payload m) (os : String) :
    ∃ block, Block.fromBuffer payload = some block ∧
      printBlock nameFilter os block = ⟨printed nameFilter os m, [], none⟩ := by
  cases h with
  | @bare block _ hwire h rest =>
    refine ⟨block, hwire.fromBuffer rest, ?_⟩
    have htype : block.type ≠ 100 := by
      cases h with
      | interest type _ => rw [type]; decide
      | data type _ => rw [type]; decide
    rw [printBlock, if_neg htype]
    exact printNetPacket_decodes h os
  | @lp block netPacket reason _ hwire type padding h hnet hm rest =>
    refine ⟨block, hwire.fromBuffer rest, ?_⟩
    rw [printBlock, if_pos type, h]
    dsimp only
    rw [hnet.fromBuffer padding]
    exact printNetPacket_decodes hm os

/-- A frame is printed as the block at the front of its payload. -/
theorem printPacket_isFrame {f : Frame} (h : IsFrame c f) {block : Block}
    (hblock : Block.fromBuffer f.payload = some block) :
    printPacket nameFilter c = printBlock nameFilter (printInterceptTime c ++ f.tunnel.text) block := by
  obtain ⟨hone, htook, hpayload⟩ := h.took
  have hos : (onCapturedPacket c).2.os = printInterceptTime c ++ f.tunnel.text := htook.os
  have hcerr : (onCapturedPacket c).2.cerr = [] := htook.cerr
  -- the size is not negative and fits in a `size_t`
  have hsize : sizeT (onCapturedPacket c).2.size = (onCapturedPacket c).2.size.toNat := by
    have hfits := c.fits
    have hlen := h.len
    have hsize := htook.size
    have hwhole : (wholePacket c).size = c.len := rfl
    unfold sizeT
    rw [Int.emod_eq_of_lt (by omega) (by omega)]
  unfold printPacket
  dsimp only
  rw [hsize, hpayload, hblock, hos, hcerr, hone]
  rfl

theorem printPacket_carries {f : Frame} {m : Message} (h : IsFrame c f) (hm : Carries f.payload m) :
    printPacket nameFilter c = ⟨printed nameFilter (printInterceptTime c ++ f.tunnel.text) m, [], none⟩ := by
  obtain ⟨block, hblock, heq⟩ := printBlock_carries nameFilter hm
    (printInterceptTime c ++ f.tunnel.text)
  rw [printPacket_isFrame h hblock, heq]

/-- The line for a message in a frame, if the filter matches. -/
def line (nameFilter : Option (String → Bool)) (p : Capture × Frame × Message) : List String :=
  printed nameFilter (printInterceptTime p.1 ++ p.2.1.tunnel.text) p.2.2

/-- Frames with messages are printed one after the other, and what follows them as it would be by itself. -/
theorem printPackets_append (nameFilter : Option (String → Bool)) (packets : List (Capture × Frame × Message))
    (h : ∀ p ∈ packets, IsFrame p.1 p.2.1 ∧ Carries p.2.1.payload p.2.2) (rest : List Capture) :
    printPackets nameFilter (packets.map Prod.fst ++ rest) =
      ⟨packets.flatMap (line nameFilter) ++ (printPackets nameFilter rest).cout,
        (printPackets nameFilter rest).cerr, (printPackets nameFilter rest).thrown⟩ := by
  induction packets with
  | nil => rfl
  | cons p packets ih =>
    obtain ⟨hframe, hm⟩ := h p List.mem_cons_self
    rw [List.map_cons, List.cons_append, printPackets, printPacket_carries hframe hm,
      ih fun p hp => h p (List.mem_cons_of_mem _ hp)]
    rw [List.flatMap_cons, List.append_assoc]
    rfl

/-- The payload starts with an NDNLPv2 packet that cannot be decoded. -/
def Undecodable (payload : Bytes) (e : String) : Prop :=
  ∃ block rest, Encoded block ∧ block.type = 100 ∧ NetworkPackets.lpPacket block = .error e ∧
    payload = block.wire ++ rest

theorem printPackets_undecodable {f : Frame} {e : String} (h : IsFrame c f) (he : Undecodable f.payload e)
    (rest : List Capture) : printPackets nameFilter (c :: rest) = ⟨[], [], some e⟩ := by
  obtain ⟨block, padding, hencoded, htype, herror, hpayload⟩ := he
  have hblock : Block.fromBuffer f.payload = some block := by
    rw [hpayload]
    exact hencoded.fromBuffer padding
  rw [printPackets, printPacket_isFrame h hblock, printBlock, if_pos htype, herror]

/-- Of frames with messages ndndump prints in their order those whose name the filter matches, and when they are
followed by a frame with an NDNLPv2 packet that cannot be decoded, nothing that follows that. -/
theorem messages_printed (nameFilter : Option (String → Bool)) (packets : List (Capture × Frame × Message))
    (h : ∀ p ∈ packets, IsFrame p.1 p.2.1 ∧ Carries p.2.1.payload p.2.2) :
    printPackets nameFilter (packets.map Prod.fst) =
      ⟨packets.flatMap (line nameFilter), [], none⟩ ∧
    ∀ c f e rest, IsFrame c f → Undecodable f.payload e →
      printPackets nameFilter (packets.map Prod.fst ++ c :: rest) =
        ⟨packets.flatMap (line nameFilter), [], some e⟩ := by
  constructor
  · have hall := printPackets_append nameFilter packets h []
    rw [List.append_nil] at hall
    rw [hall]
    simp [printPackets]
  · intro c f e rest hframe he
    rw [printPackets_append nameFilter packets h, printPackets_undecodable hframe he, List.append_nil]

end

section

/-- An Interest for /A. -/
def interestA : Block := ⟨5, [7, 3, 8, 1, 65, 10, 4, 1, 1, 1, 1], true⟩

local instance onlyA : NetworkPackets where
  lpPacket _ := .error "Unrecognized field cannot be ignored"
  interest block := if block = interestA then .ok ([[65]], "/A?ndn.Nonce=16843009") else .error "Unexpected TLV"
  data _ := .error "Unexpected TLV"
  toUri _ := "/A"

/-- The Interest in UDP, on the Ethernet. -/
def udpFrame : Frame where
  link := .ethernet (List.replicate 12 1) rfl 8 0
  tunnel := .udp ⟨[0x45, 0, 0, 0, 0, 0, 0, 0, 64, 17, 0, 0, 10, 0, 0, 1, 10, 0, 0, 2], rfl, by decide⟩ rfl
    (List.replicate 8 0) rfl
  typed := .inl rfl
  payload := interestA.wire

def udpCapture : Capture where
  dataLinkType := .en10mb
  tvSec := 1
  tvUsec := 500
  caplen := 55
  len := 55
  packet i := udpFrame.octets.getD i 0
  captured := le_rfl
  fits := by decide

theorem messages_printed_udp :
    printPackets none [udpCapture] =
      ⟨["1.000500 From: 10.0.0.1, To: 10.0.0.2, Tunnel Type: UDP, INTEREST: /A?ndn.Nonce=16843009"], [], none⟩ ∧
    ∀ c f e rest, IsFrame c f → Undecodable f.payload e →
      printPackets none ([udpCapture] ++ c :: rest) =
        ⟨["1.000500 From: 10.0.0.1, To: 10.0.0.2, Tunnel Type: UDP, INTEREST: /A?ndn.Nonce=16843009"], [], some e⟩ :=
  messages_printed none [(udpCapture, udpFrame, .interest [[65]] "/A?ndn.Nonce=16843009")] (by
    intro p hp
    cases List.mem_singleton.1 hp
    refine ⟨⟨rfl, by decide +kernel⟩, ?_⟩
    have hencoded : Encoded interestA := ⟨by decide, by decide, rfl⟩
    have hcarries := Carries.bare hencoded (.interest rfl rfl) []
    rwa [List.append_nil] at hcarries)

end

end NdnTools.Ndndump
