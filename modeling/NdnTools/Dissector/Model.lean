/-
The dissector (`ndn.lua`). The tables that stand for blocks live in a heap, by number, since the loops
write into them; each packet has a heap of its own. Of the items of the tree view only the texts
appended to those of the packets are kept, and of the others whether `block.root` has been set. The
value of a block is the text it is concatenated as.
-/
import NdnTools.Lib.TryLoop
import NdnTools.Dissector.Lua

namespace NdnTools.Dissector

/-- `TvbRange:string()` -/
class TvbStrings where
  string : Bytes → String

export TvbStrings (string)

/-- Each octet is a character. -/
abbrev TvbStrings.documented : TvbStrings :=
  ⟨fun bytes => String.ofList (bytes.map fun octet => Char.ofNat octet.toNat)⟩

/-! ## Blocks -/

structure Block where
  offset : Num
  type : Num
  typeLen : ℕ
  length : Num
  lengthLen : ℕ
  size : Num
  deriving Repr, DecidableEq

def readVarNumber (tvb : Tvb) (offset : Num) : Except LuaError (Num × ℕ) :=
  if offset ≥ tvb.len then .ok (0, 0)
  else do
    let firstOctet ← tvb.uint offset 1
    if firstOctet < 253 then .ok (firstOctet, 1)
    else if firstOctet = 253 ∧ offset + 3 < tvb.len then do .ok (← tvb.uint (offset + 1) 2, 3)
    else if firstOctet = 254 ∧ offset + 5 < tvb.len then do .ok (← tvb.uint (offset + 1) 4, 5)
    else if firstOctet = 255 ∧ offset + 9 < tvb.len then do .ok (.uint64 (← tvb.uint64 (offset + 1)), 9)
    else .ok (0, 0)

def getBlock (tvb : Tvb) (offset : Num) : Except LuaError (Option Block) := do
  let (type, typeLen) ← readVarNumber tvb offset
  if typeLen = 0 then .ok none
  else
    let (length, lengthLen) ← readVarNumber tvb (offset + typeLen)
    if lengthLen = 0 then .ok none
    else .ok (some ⟨offset, type, typeLen, length, lengthLen, typeLen + lengthLen + length⟩)

def canBeValidNdnPacket (block : Block) : Bool := (block.type = 5 ∨ block.type = 6) ∧ block.length ≤ 8800

/-- The loop of `findNdnPacket` from an offset, for as many offsets as are left. -/
def findNdnPacketFrom (tvb : Tvb) : (left offset : ℕ) → Except LuaError (Option Block)
  | 0, _ => .ok none
  | left + 1, offset => do
    match ← getBlock tvb offset with
    | none => findNdnPacketFrom tvb left (offset + 1)
    | some block => if canBeValidNdnPacket block then .ok (some block) else findNdnPacketFrom tvb left (offset + 1)

def findNdnPacket (tvb : Tvb) : Except LuaError (Option Block) := findNdnPacketFrom tvb (tvb.len - 2) 0

/-- The loop of `getSubBlocks`, over `valueLeft` and `subBlocks`. -/
def subBlocksLoop (tvb : Tvb) (block : Block) : TryLoop LuaError (Num × List Block) (Option (List Block))
  | (valueLeft, subBlocks) =>
    if valueLeft > 0 then do
      let offset := block.offset + block.typeLen + block.lengthLen + (block.length - valueLeft)
      match ← getBlock tvb offset with
      | none => .ok (.inr none)
      | some child => .ok (.inl (valueLeft - child.size, subBlocks ++ [child]))
    else .ok (.inr (if valueLeft = 0 then some subBlocks else none))

def getSubBlocks (tvb : Tvb) (block : Block) : Except LuaError (Option (List Block)) :=
  (subBlocksLoop tvb block).run .outOfFuel (tvb.len + 2) (block.length, [])

/-! ## What is known about the types -/

/-- The functions that give a block its value. -/
inductive ValueFn
  | getUriFromName
  | getUriFromNameComponent
  | getNonNegativeInteger
  | getUriFromExclude
  | getTrue
  | getGenericBlockInfo
  deriving Repr, DecidableEq

structure Info where
  name : String
  value : Option ValueFn := none
  summary : Bool := false
  deriving Repr, DecidableEq

def ndnDict : List (ℤ × Info) := [
  -- Interest or Data packets
  (5, { name := "Interest", summary := true }),
  (6, { name := "Data", summary := true }),
  -- Name field
  (7, { name := "Name", value := some .getUriFromName }),
  (1, { name := "ImplicitSha256DigestComponent", value := some .getUriFromNameComponent }),
  (8, { name := "NameComponent", value := some .getUriFromNameComponent }),
  -- Sub-fields of Interest packet
  (9, { name := "Selectors", summary := true }),
  (10, { name := "Nonce" }),
  (12, { name := "InterestLifetime", value := some .getNonNegativeInteger }),
  -- Sub-fields of Interest/Selector field
  (13, { name := "MinSuffixComponents", value := some .getNonNegativeInteger }),
  (14, { name := "MaxSuffixComponents", value := some .getNonNegativeInteger }),
  (15, { name := "PublisherPublicKeyLocator", summary := true }),
  (16, { name := "Exclude", value := some .getUriFromExclude }),
  (17, { name := "ChildSelector", value := some .getNonNegativeInteger }),
  (18, { name := "MustBeFresh", value := some .getTrue }),
  (19, { name := "Any", value := some .getTrue }),
  -- Sub-fields of Data packet
  (20, { name := "MetaInfo", summary := true }),
  (21, { name := "Content" }),
  (22, { name := "SignatureInfo", summary := true }),
  (23, { name := "SignatureValue" }),
  -- Sub-fields of Data/MetaInfo field
  (24, { name := "ContentType", value := some .getNonNegativeInteger }),
  (25, { name := "FreshnessPeriod", value := some .getNonNegativeInteger }),
  (26, { name := "FinalBlockId", value := some .getUriFromNameComponent }),
  -- Sub-fields of Data/Signature field
  (27, { name := "SignatureType", value := some .getNonNegativeInteger }),
  (28, { name := "KeyLocator", summary := true }),
  (29, { name := "KeyDigest" }),
  -- Other fields
  (30, { name := "LinkPreference", value := some .getNonNegativeInteger }),
  (31, { name := "LinkDelegation", summary := true }),
  (32, { name := "SelectedDelegation", value := some .getNonNegativeInteger })]

/-- `NDN_DICT[type]`; an object is not the key of any entry. -/
def dictInfo : Num → Option Info
  | .number n => ndnDict.lookup n
  | .uint64 _ => none

/-- `info.value`, where a type that is not known gets the generic function. -/
def valueFn (type : Num) : Option ValueFn :=
  match dictInfo type with
  | none => some .getGenericBlockInfo
  | some info => info.value

/-! ## The heap -/

/-- The table of a block. -/
structure Node where
  block : Block
  elements : Option (List ℕ) := none
  value : Option String := none
  summary : Option String := none
  root : Bool := false
  visited : Bool := false
  deriving Repr, DecidableEq

/-- The table that `getBlock` returns. -/
def fresh (block : Block) : Node := { block := block }

abbrev Heap := List Node

/-- Indexes a table. -/
def Heap.node (heap : Heap) (r : ℕ) : Except LuaError Node :=
  match heap[r]? with
  | none => .error .indexNil
  | some node => .ok node

/-! ## The values of blocks -/

variable [TvbStrings]

def getUriFromNameComponent (tvb : Tvb) (block : Block) : Except LuaError String := do
  return string (← tvb.range (block.offset + block.typeLen + block.lengthLen) block.length)

def getUriFromName (tvb : Tvb) (heap : Heap) (node : Node) : Except LuaError String :=
  match node.elements with
  | none => .ok ""
  | some refs => do
    let components ← refs.mapM fun r => do getUriFromNameComponent tvb (← heap.node r).block
    return "/" ++ "/".intercalate components

def getNonNegativeInteger (tvb : Tvb) (block : Block) : Except LuaError ℕ :=
  if block.length = 1 then tvb.uint (block.offset + block.typeLen + block.lengthLen) 1
  else if block.length = 2 then tvb.uint (block.offset + block.typeLen + block.lengthLen) 2
  else if block.length = 4 then tvb.uint (block.offset + block.typeLen + block.lengthLen) 4
  else .ok 0xFFFFFFFF

def getGenericBlockInfo (block : Block) : String :=
  let name :=
    if block.type < 128 then "RESERVED_1"
    else if 128 ≤ block.type ∧ block.type < 253 then "APP_TAG_1"
    else if 253 ≤ block.type ∧ block.type < 32767 then "RESERVED_3"
    else "APP_TAG_3"
  name ++ ", Type: " ++ block.type.toString ++ ", Length: " ++ block.length.toString

/-- `info.value(block)` -/
def ValueFn.apply (tvb : Tvb) (heap : Heap) (node : Node) : ValueFn → Except LuaError String
  | getUriFromName => Dissector.getUriFromName tvb heap node
  | getUriFromNameComponent => Dissector.getUriFromNameComponent tvb node.block
  | getNonNegativeInteger => do return toString (← Dissector.getNonNegativeInteger tvb node.block)
  | getUriFromExclude => .ok ""
  | getTrue => .ok "Yes"
  | getGenericBlockInfo => .ok (Dissector.getGenericBlockInfo node.block)

def addInfo (tvb : Tvb) (heap : Heap) (node : Node) : Except LuaError Node :=
  match valueFn node.block.type with
  | none => do
    let _ ← tvb.range node.block.offset node.block.size
    return { node with root := true }
  | some f => do
    let value ← f.apply tvb heap node
    let _ ← tvb.range node.block.offset node.block.size
    return { node with value := some value, root := true }

/-! ## Summaries -/

/-- What a block contributes to the summary of its parent. -/
def Node.line (node : Node) : Option String :=
  match node.value, dictInfo node.block.type with
  | some value, some info => some (info.name ++ ": " ++ value)
  | _, _ => none

def addSummary (heap : Heap) (r : ℕ) (node : Node) : Except LuaError Heap :=
  match node.elements, dictInfo node.block.type with
  | some refs, some info =>
    if ¬ info.summary then .ok heap
    else do
      let summary := (← refs.mapM heap.node).filterMap Node.line
      if summary = [] then .ok heap
      else if ¬ node.root then .error .indexNil
      else
        let text := ", ".intercalate summary
        .ok (heap.set r { node with summary := some text, value := some (node.value.getD text) })
  | _, _ => .ok heap

/-! ## Dissecting -/

/-- The loop that creates the tree items, over the queue of blocks. -/
def expandLoop (tvb : Tvb) : TryLoop LuaError (Heap × List ℕ) Heap
  | (heap, []) => .ok (.inr heap)
  | (heap, r :: queue) => do
    let node ← heap.node r
    let subBlocks ← getSubBlocks tvb node.block
    let refs := subBlocks.map fun blocks => List.range' heap.length blocks.length
    let heap := heap ++ (subBlocks.getD []).map fresh
    let node ← addInfo tvb heap { node with elements := refs }
    return .inl (heap.set r node, queue ++ refs.getD [])

def expand (tvb : Tvb) (block : Block) : Except LuaError Heap :=
  (expandLoop tvb).run .outOfFuel (tvb.len + 2) ([fresh block], [0])

/-- The loop that makes the summaries. Its queue takes new elements in front. -/
def summaryLoop : TryLoop LuaError (Heap × List ℕ) Heap
  | (heap, []) => .ok (.inr heap)
  | (heap, r :: queue) => do
    let node ← heap.node r
    match node.visited, node.elements with
    | false, some refs => return .inl (heap.set r { node with visited := true }, refs.reverse ++ r :: queue)
    | _, _ => return .inl (← addSummary heap r node, queue)

/-- How often a block can still come to the front of the queue: itself and its elements. -/
def Node.visits (node : Node) : ℕ := if node.visited then 0 else 1 + (node.elements.getD []).length

def summarize (heap : Heap) : Except LuaError Heap :=
  summaryLoop.run .outOfFuel ((heap.map Node.visits).sum + 2) (heap, [0])

/-- What is done for a packet; the result is what is appended to its item. -/
def dissectPacket (tvb : Tvb) (block : Block) : Except LuaError String := do
  let _ ← tvb.range block.offset block.size
  let heap ← summarize (← expand tvb block)
  let node ← heap.node 0
  match dictInfo block.type with
  | none => return ""
  | some info =>
    match node.summary with
    | none => .error .concatNil
    | some summary => return ", " ++ info.name ++ ", " ++ summary

/-- The loop over the packets, with what the items got; it ends with no block if there is an error message in
its place. -/
def packetLoop (tvb : Tvb) : TryLoop LuaError (Block × Num × List String) (Option Block × Num × List String)
  | (block, nBytesLeft, shown) =>
    if block.size ≤ nBytesLeft then do
      let text ← dissectPacket tvb block
      let nBytesLeft := nBytesLeft - block.size
      let shown := shown ++ [text]
      if nBytesLeft > 0 then
        match getBlock tvb (tvb.len - nBytesLeft) with
        | .error _ => return .inr (none, nBytesLeft, shown)
        | .ok none => .error .indexNil
        | .ok (some next) =>
          if canBeValidNdnPacket next then return .inl (next, nBytesLeft, shown)
          else return .inr (some next, nBytesLeft, shown)
      else return .inl (block, nBytesLeft, shown)
    else .ok (.inr (some block, nBytesLeft, shown))

structure Report where
  shown : List String
  desegmentOffset : Option Num
  deriving Repr, DecidableEq

/-- `ndn.dissector`, which may return before it has found a packet. -/
def dissector (tvb : Tvb) : Except LuaError (Option Report) :=
  if tvb.len ≠ tvb.reportedLen then .ok none
  else
    match findNdnPacket tvb with
    | .error _ => .ok none
    | .ok none => .ok none
    | .ok (some block) => do
      let (block, nBytesLeft, shown) ←
        (packetLoop tvb).run .outOfFuel (tvb.len + 2) (block, tvb.len - block.offset, [])
      let unfinished := nBytesLeft > 0 ∧ ∃ b ∈ block, b.size > nBytesLeft
      return some ⟨shown, if unfinished then some (tvb.len - nBytesLeft) else none⟩

end NdnTools.Dissector
