/-
The entities are decoded as they were encoded. Each encoder writes the wires of its elements, from the
last to the first, and a header with the sum of what it has counted: so it writes a block that has these
elements (`writes`), and the decoder of the class reads them one after the other (`wireDecode_wires`).
-/
import NdnTools.Pib.Encoding.Entities

namespace NdnTools.Pib.Encoding

open Tlv

variable {bs : List Block}

/-! ## Elements -/

def enumBlock (type : ℕ) (e : UInt32) : Block := { type := type, value := nonNegativeInteger e.toNat }

/-- The bits of an enumerator are kept. -/
theorem readEnum_enumBlock (t : ℕ) (e : UInt32) : readEnum (enumBlock t e) = .ok e := by
  have hlt : e.toNat < 2 ^ 64 := e.toNat_lt.trans (by decide)
  unfold readEnum enumBlock
  rw [readNonNegativeInteger_nonNegativeInteger hlt]
  exact congrArg Except.ok UInt32.ofNat_toNat

theorem orThrow_elements {t : ℕ} (hlen : (wires bs).length < 2 ^ 64)
    (hbs : ∀ b ∈ bs, b.type < 2 ^ 32 ∧ b.hasWire = true) :
    orThrow (Block.elements { type := t, value := wires bs }) = .ok bs := by
  rw [elements_wires hlen hbs]
  rfl

/-- The trip of a value whose encoder writes a block with these elements. -/
theorem trip_of {α : Type} [WireFormat α] {Same : α → α → Prop} {a : α} {t : ℕ}
    (henc : Writes (WireFormat.wireEncode a) (Block.wire { type := t, value := wires bs })) (ht : t < 2 ^ 32)
    (hdec : (wires bs).length < 2 ^ 64 →
      ∃ d, WireFormat.wireDecode create { type := t, value := wires bs } = .ok d ∧ Same d a)
    (b : Block) (hb : encodeBlock a = .ok b) : ∃ d, WireFormat.wireDecode create b = .ok d ∧ Same d a := by
  obtain ⟨rfl, hlen⟩ := encodeBlock_ok henc ht hb
  exact hdec hlen

/-- The block that is the whole value of another. -/
theorem fromValue_wires {b : Block} {t : ℕ} (hlen : (wires [b]).length < 2 ^ 64) (ht : b.type < 2 ^ 32)
    (hw : b.hasWire = true) : Block.fromValue { type := t, value := wires [b] } = some b := by
  have hvalue := (length_value_lt_wires (List.mem_singleton.2 rfl)).trans hlen
  rw [wires_singleton]
  exact fromValue_wire ht hvalue hw

/-! ## Errors -/

namespace PibError

def blocks (o : PibError) : List Block :=
  [enumBlock tlv.errorCode o.errCode, { type := tlv.bytes, value := o.msg }]

theorem writes (o : PibError) : Writes o.wireEncode (Block.wire { type := tlv.error, value := wires o.blocks }) := by
  intro buffer
  unfold wireEncode
  rw [(writes_prependByteArrayBlock tlv.bytes o.msg).bind,
    (writes_prependNonNegativeIntegerBlock tlv.errorCode o.errCode.toNat).step, ← wires_singleton, ← wires_singleton,
    ← wires_append]
  exact prependHeader_wire tlv.error (wires o.blocks) buffer

theorem wireDecode_wires (o old : PibError) (hlen : (wires o.blocks).length < 2 ^ 64) :
    old.wireDecode { type := tlv.error, value := wires o.blocks } = .ok o := by
  have helems : orThrow (Block.elements { type := tlv.error, value := wires o.blocks }) = .ok o.blocks :=
    orThrow_elements hlen (by simp [blocks, enumBlock, tlv.errorCode, tlv.bytes])
  simp only [wireDecode, checkWire_wire, checkType_self, helems, bind, Except.bind]
  simp only [blocks, expect_cons (show (enumBlock tlv.errorCode o.errCode).type = tlv.errorCode from rfl),
    readEnum_enumBlock, expect_cons (rfl : ({ type := tlv.bytes, value := o.msg } : Block).type = tlv.bytes)]
  rfl

end PibError

/-! ## Names and certificates -/

variable [Certificates] [Formats] {name : Name} {cert : IdentityCertificate}

def nameBlock (name : Name) : Block := { type := tlv.name, value := nameValue name }

def certificateBlock (cert : IdentityCertificate) : Block := { type := tlv.data, value := dataValue cert }

theorem writes_encodeName (name : Name) : Writes (encodeName name) (wires [nameBlock name]) := by
  rw [wires_singleton]
  exact writes_prependByteArrayBlock tlv.name (nameValue name)

theorem writes_encodeCertificate (cert : IdentityCertificate) :
    Writes (encodeCertificate (some cert)) (wires [certificateBlock cert]) := by
  rw [wires_singleton]
  exact writes_prependBlock (certificateBlock cert)

theorem decodeName_nameBlock (h : (nameValue name).length < 2 ^ 64) : decodeName (nameBlock name) = .ok name := by
  simp only [decodeName, nameBlock, if_true, Formats.readName_nameValue name h, orThrow_some]

theorem decodeCertificate_certificateBlock (h : (dataValue cert).length < 2 ^ 64) :
    decodeCertificate (certificateBlock cert) = .ok cert := by
  simp only [decodeCertificate, certificateBlock, if_true, Formats.readData_dataValue cert h, orThrow_some]

/-! ## Entities -/

namespace PibIdentity

theorem writes (o : PibIdentity) :
    Writes o.wireEncode (Block.wire { type := tlv.identity, value := wires [nameBlock o.identity] }) :=
  (writes_encodeName o.identity).header tlv.identity

theorem wireDecode_wires (o old : PibIdentity) (hlen : (wires [nameBlock o.identity]).length < 2 ^ 64) :
    old.wireDecode { type := tlv.identity, value := wires [nameBlock o.identity] } = .ok o := by
  have hname := (length_value_lt_wires (List.mem_singleton.2 rfl)).trans hlen
  simp only [wireDecode, checkWire_wire, checkType_self, fromValue_wires hlen (show tlv.name < 2 ^ 32 by decide) rfl,
    orThrow_some, decodeName_nameBlock hname, bind, Except.bind]
  rfl

end PibIdentity

namespace PibPublicKey

def blocks (o : PibPublicKey) : List Block := [nameBlock o.keyName, { type := tlv.bytes, value := o.key }]

theorem writes (o : PibPublicKey) :
    Writes o.wireEncode (Block.wire { type := tlv.publicKey, value := wires o.blocks }) := by
  intro buffer
  unfold wireEncode
  rw [(writes_prependByteArrayBlock tlv.bytes o.key).bind, (writes_encodeName o.keyName).step, ← wires_singleton,
    ← wires_append]
  exact prependHeader_wire tlv.publicKey (wires o.blocks) buffer

theorem orThrow_blocks {o : PibPublicKey} (hlen : (wires o.blocks).length < 2 ^ 64) :
    orThrow (Block.elements { type := tlv.publicKey, value := wires o.blocks }) = .ok o.blocks :=
  orThrow_elements hlen (by simp [blocks, nameBlock, tlv.name, tlv.bytes])

/-- A key with a value, which `PublicKey` accepts. -/
structure HoldsKey (o : PibPublicKey) : Prop where
  isSet : o.isValueSet = true
  accepted : (toPublicKey o.key).isSome = true

theorem wireDecode_wires {o : PibPublicKey} (h : o.HoldsKey) (old : PibPublicKey)
    (hlen : (wires o.blocks).length < 2 ^ 64) :
    old.wireDecode { type := tlv.publicKey, value := wires o.blocks } = .ok o := by
  have hname : (nameValue o.keyName).length < 2 ^ 64 :=
    (length_value_lt_wires (List.mem_cons_self : nameBlock o.keyName ∈ o.blocks)).trans hlen
  obtain ⟨key, hkey⟩ := Option.isSome_iff_exists.1 h.accepted
  have hset := h.isSet
  simp only [wireDecode, checkWire_wire, checkType_self, orThrow_blocks hlen, bind, Except.bind]
  simp only [blocks, expect_cons (show (nameBlock o.keyName).type = tlv.name from rfl), decodeName_nameBlock hname,
    expect_cons (rfl : ({ type := tlv.bytes, value := o.key } : Block).type = tlv.bytes), hkey, orThrow_some,
    expectEnd_nil]
  rw [Certificates.toPublicKey_eq o.key key hkey, ← hset]
  rfl

end PibPublicKey

namespace PibCertificate

/-- The flag says whether there is a value, as the constructors have it. -/
def FlagAgrees (o : PibCertificate) : Prop := o.isValueSet = o.certificate.isSome

theorem writes {o : PibCertificate} (h : o.certificate = some cert) :
    Writes o.wireEncode (Block.wire { type := tlv.certificate, value := wires [certificateBlock cert] }) := by
  unfold wireEncode
  rw [h]
  exact (writes_encodeCertificate cert).header tlv.certificate

/-- A certificate without a value is not encoded. -/
theorem wireEncode_error {o : PibCertificate} (h : o.certificate = none) (buffer : List UInt8) :
    o.wireEncode buffer = .error .library := by
  unfold wireEncode
  rw [h]
  rfl

theorem wireDecode_wires (old : PibCertificate) (hlen : (wires [certificateBlock cert]).length < 2 ^ 64) :
    old.wireDecode { type := tlv.certificate, value := wires [certificateBlock cert] } =
      .ok { isValueSet := true, certificate := some cert } := by
  have hcert := (length_value_lt_wires (List.mem_singleton.2 rfl)).trans hlen
  simp only [wireDecode, checkWire_wire, checkType_self, fromValue_wires hlen (show tlv.data < 2 ^ 32 by decide) rfl,
    orThrow_some, decodeCertificate_certificateBlock hcert, bind, Except.bind]
  rfl

end PibCertificate

namespace PibNameList

theorem writes_encodeNames : ∀ names : List Name, Writes (encodeNames names) (wires (names.map nameBlock))
  | [] => fun _ => rfl
  | name :: names => by
    intro buffer
    unfold encodeNames
    rw [(writes_encodeNames names).bind, (writes_encodeName name).step, ← wires_append]
    rfl

theorem writes (o : PibNameList) :
    Writes o.wireEncode (Block.wire { type := tlv.nameList, value := wires (o.names.map nameBlock) }) :=
  (writes_encodeNames o.names).header tlv.nameList

theorem decodeNames_nameBlocks : ∀ {names : List Name} (old : List Name),
    (∀ name ∈ names, (nameValue name).length < 2 ^ 64) →
      decodeNames (names.map nameBlock) old = .ok (old ++ names)
  | [], old, _ => by simp [decodeNames]
  | name :: names, old, h => by
    have hname := decodeName_nameBlock (h name List.mem_cons_self)
    have hrest := @decodeNames_nameBlocks names (old ++ [name]) fun n hn => h n (List.mem_cons_of_mem name hn)
    have htype : (nameBlock name).type = tlv.name := rfl
    simp only [List.map_cons, decodeNames, if_pos htype, hname, hrest, bind, Except.bind]
    rw [List.append_assoc]
    rfl

theorem wireDecode_wires (o : PibNameList) (hlen : (wires (o.names.map nameBlock)).length < 2 ^ 64) :
    wireDecode {} { type := tlv.nameList, value := wires (o.names.map nameBlock) } = .ok o := by
  have hnames : ∀ name ∈ o.names, (nameValue name).length < 2 ^ 64 := fun name hname =>
    (length_value_lt_wires (List.mem_map_of_mem hname)).trans hlen
  have helems : orThrow (Block.elements { type := tlv.nameList, value := wires (o.names.map nameBlock) }) =
      .ok (o.names.map nameBlock) := by
    refine orThrow_elements hlen fun b hb => ?_
    obtain ⟨name, -, rfl⟩ := List.mem_map.1 hb
    exact ⟨show tlv.name < 2 ^ 32 by decide, rfl⟩
  simp only [wireDecode, checkWire_wire, checkType_self, helems, decodeNames_nameBlocks [] hnames, bind, Except.bind]
  rfl

end PibNameList

namespace PibUser

def locatorBlocks (o : PibUser) : List Block :=
  if o.tpmLocator ≠ [] then [{ type := tlv.tpmLocator, value := o.tpmLocator }] else []

omit [Formats] in
theorem writes_encodeLocator (o : PibUser) : Writes o.encodeLocator (wires o.locatorBlocks) := by
  unfold encodeLocator locatorBlocks
  split
  · rw [wires_singleton]
    exact writes_prependByteArrayBlock tlv.tpmLocator o.tpmLocator
  · exact fun _ => rfl

theorem writes {o : PibUser} (h : o.mgmtCert = some cert) :
    Writes o.wireEncode
      (Block.wire { type := tlv.user, value := wires (certificateBlock cert :: o.locatorBlocks) }) := by
  intro buffer
  unfold wireEncode
  rw [h, o.writes_encodeLocator.bind, (writes_encodeCertificate cert).step, ← wires_append]
  exact prependHeader_wire tlv.user (wires (certificateBlock cert :: o.locatorBlocks)) buffer

/-- A user without a certificate is not encoded. -/
theorem wireEncode_error {o : PibUser} (h : o.mgmtCert = none) (buffer : List UInt8) :
    o.wireEncode buffer = .error .library := by
  unfold wireEncode
  rw [h, o.writes_encodeLocator.bind]
  rfl

theorem wireDecode_wires {o : PibUser} (h : o.mgmtCert = some cert)
    (hlen : (wires (certificateBlock cert :: o.locatorBlocks)).length < 2 ^ 64) :
    wireDecode {} { type := tlv.user, value := wires (certificateBlock cert :: o.locatorBlocks) } = .ok o := by
  have hcert : (dataValue cert).length < 2 ^ 64 :=
    (length_value_lt_wires (List.mem_cons_self : certificateBlock cert ∈ _)).trans hlen
  have helems : orThrow
      (Block.elements { type := tlv.user, value := wires (certificateBlock cert :: o.locatorBlocks) }) =
      .ok (certificateBlock cert :: o.locatorBlocks) := by
    refine orThrow_elements hlen ?_
    unfold locatorBlocks
    split <;> simp [certificateBlock, tlv.data, tlv.tpmLocator]
  simp only [wireDecode, checkWire_wire, checkType_self, helems, bind, Except.bind,
    expect_cons (show (certificateBlock cert).type = tlv.data from rfl), decodeCertificate_certificateBlock hcert]
  unfold locatorBlocks
  by_cases hloc : o.tpmLocator ≠ []
  · simp only [if_pos hloc]
    rw [← h]
    rfl
  · simp only [if_neg hloc]
    rw [← h, ← not_not.1 hloc]
    rfl

end PibUser

end NdnTools.Pib.Encoding
