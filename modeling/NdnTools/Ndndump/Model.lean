/-
What `Ndndump::onCapturedPacket` (`ndndump.cpp`) does to a captured packet until it calls
`Block::fromBuffer`: it takes off the header of the data link and those of the frame. The macros and
structures of the headers are those of `tcpdump/`.

The packet is memory, of which the capture fills the first `caplen` bytes; what stands behind them is
any byte. The sizes are `ssize_t`, which the sizes of packets do not overflow.
-/
import NdnTools.Lib.Cursor

namespace NdnTools.Ndndump

/-- The link types that `run` accepts: `DLT_EN10MB` and `DLT_PPP`. -/
inductive DataLinkType
  | en10mb
  | ppp
  deriving Repr, DecidableEq

/-- What pcap hands over: the header and a pointer to the packet. -/
structure Capture where
  dataLinkType : DataLinkType
  tvSec : ℕ
  tvUsec : ℕ
  caplen : ℕ
  len : ℕ
  packet : ℕ → UInt8
  captured : caplen ≤ len
  /-- `bpf_u_int32` -/
  fits : len < 2 ^ 32

namespace Capture

variable (c : Capture)

def byte (i : ℕ) : ℕ := (c.packet i).toNat

/-- `ntohs` of the two bytes at `i`. -/
def ntohs (i : ℕ) : ℕ := c.byte i <<< 8 ||| c.byte (i + 1)

/-- `IP_HL` of the header at `ip`. -/
def ipHl (ip : ℕ) : ℕ := c.byte ip &&& 0x0f

/-- `ip_p` -/
def ipProtocol (ip : ℕ) : ℕ := c.byte (ip + 9)

/-- `TH_OFF` of the header at `tcp`. -/
def thOff (tcp : ℕ) : ℕ := (c.byte (tcp + 12) &&& 0xf0) >>> 4

/-- `inet_ntoa` of the address at `i`. -/
def inetNtoa (i : ℕ) : String :=
  toString (c.byte i) ++ "." ++ toString (c.byte (i + 1)) ++ "." ++ toString (c.byte (i + 2)) ++ "." ++
    toString (c.byte (i + 3))

end Capture

/-- `payload` and `payloadSize`, what is printed of the packet, and the messages to `std::cerr`. -/
structure Payload extends Cursor where
  os : String
  cerr : List String
  deriving Repr, DecidableEq

namespace Payload

def look (is : List ℕ) (d : Payload) : Payload := { d with toCursor := d.toCursor.look is }

def skip (n : ℕ) (d : Payload) : Payload := { d with toCursor := d.toCursor.skip n }

def print (text : String) (d : Payload) : Payload := { d with os := d.os ++ text }

def complain (message : String) (d : Payload) : Payload := { d with cerr := d.cerr ++ [message] }

@[simp] theorem toCursor_look (is : List ℕ) (d : Payload) : (d.look is).toCursor = d.toCursor.look is := rfl

@[simp] theorem toCursor_skip (n : ℕ) (d : Payload) : (d.skip n).toCursor = d.toCursor.skip n := rfl

@[simp] theorem toCursor_print (text : String) (d : Payload) : (d.print text).toCursor = d.toCursor := rfl

@[simp] theorem toCursor_complain (message : String) (d : Payload) : (d.complain message).toCursor = d.toCursor := rfl

end Payload

/-- The seconds and six digits of microseconds. -/
def printInterceptTime (c : Capture) : String :=
  toString c.tvSec ++ "." ++ String.ofList ((toString c.tvUsec).toList.leftpad 6 '0') ++ " "

/-- The frame type; there is none if it returns -1. -/
def skipDataLinkHeaderAndGetFrameType (c : Capture) (d : Payload) : Option ℕ × Payload :=
  match c.dataLinkType with
  | .en10mb =>
    if d.size < 0 then (none, d.complain "Invalid pcap Ethernet frame")
    else
      let frameType := c.ntohs (d.offset + 12)
      (some frameType, (d.look [d.offset + 12, d.offset + 13]).skip 14)
  | .ppp =>
    let frameType := c.byte d.offset
    let d := (d.look [d.offset]).skip 1
    let (frameType, d) :=
      if frameType &&& 1 = 0 then (frameType <<< 8 ||| c.byte d.offset, (d.look [d.offset]).skip 1)
      else (frameType, d)
    -- the bytes have been read
    if d.size < 0 then (none, d.complain "Invalid PPP frame") else (some frameType, d)

/-! ## The frame

The functions say whether they return 0. -/

def skipUdpHeader (d : Payload) : Bool × Payload :=
  let d := d.skip 8
  if d.size < 0 then (false, d.complain "Invalid pcap UDP/IP packet")
  else (true, d.print ", Tunnel Type: UDP")

def skipTcpHeader (c : Capture) (d : Payload) : Bool × Payload :=
  let tcpHeaderSize := c.thOff d.offset * 4
  let d := d.look [d.offset + 12]
  if tcpHeaderSize < 20 then (false, d.complain ("Invalid TCP Header len: " ++ toString tcpHeaderSize ++ " bytes"))
  else
    let d := d.skip tcpHeaderSize
    if d.size < 0 then (false, d.complain "Invalid pcap TCP/IP packet")
    else (true, d.print ", Tunnel Type: TCP")

def skipIpHeader (c : Capture) (d : Payload) : Bool × Payload :=
  let ipHeader := d.offset
  let ipHeaderSize := c.ipHl ipHeader * 4
  let d := d.look [ipHeader]
  if ipHeaderSize < 20 then (false, d.complain ("invalid IP header len " ++ toString ipHeaderSize ++ " bytes"))
  else
    let d := (d.look ((List.range 8).map (ipHeader + 12 + ·))).print
      ("From: " ++ c.inetNtoa (ipHeader + 12) ++ ", " ++ "To: " ++ c.inetNtoa (ipHeader + 16))
    let d := d.skip ipHeaderSize
    if d.size < 0 then (false, d.complain "Invalid pcap IP packet")
    else
      let ipProtocol := c.ipProtocol ipHeader
      let d := d.look [ipHeader + 9]
      match ipProtocol with
      | 17 => skipUdpHeader d
      | 6 => skipTcpHeader c d
      | _ => (false, d)

/-- 1 is `DLT_EN10MB`. The sizes of NDN frames are not checked. -/
def skipAndProcessFrameHeader (c : Capture) (frameType : ℕ) (d : Payload) : Bool × Payload :=
  match frameType with
  | 0x0800 | 1 => skipIpHeader c d
  | 0x7777 | 0x8624 => (true, d.print "Tunnel Type: EthernetFrame")
  | 0x0077 => (true, (d.print "Tunnel Type: PPP").skip 2)
  | _ => (false, d)

/-- `payload` and `payloadSize` at the start: the size is that on the wire. -/
def wholePacket (c : Capture) : Payload := ⟨.start c.len, printInterceptTime c, []⟩

/-- `onCapturedPacket`, and whether it gets to `Block::fromBuffer(payload, payloadSize)`. -/
def onCapturedPacket (c : Capture) : Bool × Payload :=
  match skipDataLinkHeaderAndGetFrameType c (wholePacket c) with
  | (none, d) => (false, d.complain "Unknown frame type")
  | (some frameType, d) => skipAndProcessFrameHeader c frameType d

end NdnTools.Ndndump
