/-
The entities of the PIB as blocks (`pib-encoding.cpp`), and the types of blocks (`pib-common.hpp`). Of
the library the encodings of a name and of a certificate are parameters (`Formats`), with what they are
documented to do. A `std::string` is its octets.
-/
import NdnTools.Lib.TlvObject
import NdnTools.Pib.Name

namespace NdnTools.Pib.Encoding

open Tlv

/-! ## Types -/

namespace tlv

def data : ℕ := 6
def name : ℕ := 7
def nameComponent : ℕ := 8

def getParam : ℕ := 128
def defaultParam : ℕ := 129
def listParam : ℕ := 130
def updateParam : ℕ := 131
def deleteParam : ℕ := 132

def user : ℕ := 144
def identity : ℕ := 145
def publicKey : ℕ := 146
def certificate : ℕ := 147

def bytes : ℕ := 148
def defaultOpt : ℕ := 149
def nameList : ℕ := 150
def type : ℕ := 151
def error : ℕ := 152
def tpmLocator : ℕ := 153

def errorCode : ℕ := 252

end tlv

/-! ## Decoding in steps -/

def checkWire (wire : Block) : Except Error Unit :=
  if wire.hasWire then .ok () else .error (.thrown "The supplied block does not contain wire format")

def checkType (type : ℕ) (what : String) (wire : Block) : Except Error Unit :=
  if wire.type = type then .ok () else .error (.thrown what)

/-- The next element, which must be there and be of a type. -/
def expect (type : ℕ) (what : String) : List Block → Except Error (Block × List Block)
  | b :: it => if b.type = type then .ok (b, it) else .error (.thrown what)
  | [] => .error (.thrown what)

def expectEnd (what : String) : List Block → Except Error Unit
  | [] => .ok ()
  | _ :: _ => .error (.thrown what)

@[simp] theorem checkWire_wire (type : ℕ) (value : Bytes) : checkWire { type := type, value := value } = .ok () := rfl

@[simp] theorem checkType_self (type : ℕ) (value : Bytes) (what : String) :
    checkType type what { type := type, value := value } = .ok () := if_pos rfl

theorem expect_cons {type : ℕ} {b : Block} (h : b.type = type) (what : String) (it : List Block) :
    expect type what (b :: it) = .ok (b, it) := if_pos h

@[simp] theorem expectEnd_nil (what : String) : expectEnd what [] = .ok () := rfl

/-- An enumerator read from a block; its type has 32 bits. -/
def readEnum (b : Block) : Except Error UInt32 := do
  return UInt32.ofNat (← orThrow (readNonNegativeInteger b.value))

/-! ## The library -/

/-- The values of the blocks of a name and of a certificate. -/
class Formats [Certificates] where
  nameValue : Name → Bytes
  readName : Bytes → Option Name
  readName_nameValue : ∀ name, (nameValue name).length < 2 ^ 64 → readName (nameValue name) = some name
  dataValue : IdentityCertificate → Bytes
  readData : Bytes → Option IdentityCertificate
  readData_dataValue : ∀ cert, (dataValue cert).length < 2 ^ 64 → readData (dataValue cert) = some cert

export Formats (nameValue readName dataValue readData)

section
variable [Certificates]

/-- The components of a name, which are the elements of its block. -/
def componentBlocks (name : Name) : List Block := name.map fun c => { type := tlv.nameComponent, value := c }

def readComponents (bs : List Block) : Option Name :=
  bs.mapM fun b => if b.type = tlv.nameComponent then some b.value else none

omit [Certificates] in
theorem readComponents_componentBlocks : ∀ name : Name, readComponents (componentBlocks name) = some name
  | [] => rfl
  | c :: name => by
    have hrest := readComponents_componentBlocks name
    unfold readComponents componentBlocks at hrest ⊢
    rw [List.map_cons, List.mapM_cons, hrest]
    rfl

def readNameValue (value : Bytes) : Option Name := (readBlocks value.length value).bind readComponents

omit [Certificates] in
theorem readNameValue_wires {name : Name} (h : (wires (componentBlocks name)).length < 2 ^ 64) :
    readNameValue (wires (componentBlocks name)) = some name := by
  have hsmall : ∀ b ∈ componentBlocks name, b.type < 2 ^ 32 ∧ b.hasWire = true := by
    simp [componentBlocks, tlv.nameComponent]
  unfold readNameValue
  rw [readBlocks_wires (le_refl _) h hsmall]
  exact readComponents_componentBlocks name

/-- A certificate by its name, its key as the content, and the rest as the signature. -/
def certificateBlocks (cert : IdentityCertificate) : List Block :=
  [{ type := tlv.name, value := wires (componentBlocks cert.name) }, { type := 21, value := cert.publicKeyInfo },
    { type := 23, value := cert.rest }]

def readCertificate : List Block → Option IdentityCertificate
  | [name, content, rest] =>
    (readNameValue name.value).bind fun certName =>
      match h : certificateNameToPublicKeyName certName with
      | .ok keyName =>
        if hkey : (toPublicKey content.value).isSome = true then
          some ⟨certName, keyName, content.value, rest.value, h, hkey⟩
        else none
      | .error _ => none
  | _ => none

theorem readCertificate_certificateBlocks (cert : IdentityCertificate)
    (h : (wires (componentBlocks cert.name)).length < 2 ^ 64) :
    readCertificate (certificateBlocks cert) = some cert := by
  obtain ⟨certName, keyName, key, rest, hnamed, hkey⟩ := cert
  simp only [readCertificate, certificateBlocks, readNameValue_wires h, Option.bind_some]
  split
  · rename_i keyName' hok
    obtain rfl : keyName' = keyName := by rw [hnamed] at hok; exact (Except.ok.inj hok).symm
    exact dif_pos hkey
  · rename_i e herror
    rw [hnamed] at herror
    cases herror

/-- The library as documented, with `readCertificate` for what it makes of a certificate. -/
@[reducible] def Formats.documented : Formats where
  nameValue name := wires (componentBlocks name)
  readName := readNameValue
  readName_nameValue _ h := readNameValue_wires h
  dataValue cert := wires (certificateBlocks cert)
  readData value := (readBlocks value.length value).bind readCertificate
  readData_dataValue cert h := by
    have hname : (wires (componentBlocks cert.name)).length < 2 ^ 64 :=
      (length_value_lt_wires (List.mem_cons_self : _ ∈ certificateBlocks cert)).trans h
    rw [readBlocks_wires (le_refl _) h (by simp [certificateBlocks, tlv.name])]
    exact readCertificate_certificateBlocks cert hname

end

variable [Certificates] [Formats]

/-- `Name::wireEncode` -/
def encodeName (name : Name) : Encoder ℕ := prependByteArrayBlock tlv.name (nameValue name)

/-- `Name::wireDecode` -/
def decodeName (b : Block) : Except Error Name :=
  if b.type = tlv.name then orThrow (readName b.value) else .error .library

/-- `IdentityCertificate::wireEncode`, which throws for a certificate that has not been given a value. -/
def encodeCertificate : Option IdentityCertificate → Encoder ℕ
  | none => throw .library
  | some cert => prependBlock { type := tlv.data, value := dataValue cert }

/-- `IdentityCertificate::wireDecode` -/
def decodeCertificate (b : Block) : Except Error IdentityCertificate :=
  if b.type = tlv.data then orThrow (readData b.value) else .error .library

/-! ## Identities -/

structure PibIdentity where
  identity : Name := []
  deriving DecidableEq

def PibIdentity.wireEncode (o : PibIdentity) : Encoder ℕ := do
  prependHeader tlv.identity (← encodeName o.identity)

def PibIdentity.wireDecode (o : PibIdentity) (wire : Block) : Except Error PibIdentity := do
  checkWire wire
  checkType tlv.identity "Unexpected TLV type when decoding PibIdentity" wire
  return { o with identity := ← decodeName (← orThrow wire.fromValue) }

instance : WireFormat PibIdentity := ⟨{}, PibIdentity.wireEncode, PibIdentity.wireDecode⟩

/-! ## Keys -/

/-- A key that was default-constructed has no bits. -/
structure PibPublicKey where
  isValueSet : Bool := false
  keyName : Name := []
  key : PublicKey := []
  deriving DecidableEq

def PibPublicKey.getKeyName (o : PibPublicKey) : Except Error Name :=
  if o.isValueSet then .ok o.keyName else .error (.thrown "PibPublicKey::getKeyName: keyName is not set")

def PibPublicKey.getPublicKey (o : PibPublicKey) : Except Error PublicKey :=
  if o.isValueSet then .ok o.key else .error (.thrown "PibPublicKey::getPublicKey: key is not set")

def PibPublicKey.wireEncode (o : PibPublicKey) : Encoder ℕ := do
  let totalLength ← prependByteArrayBlock tlv.bytes o.key
  prependHeader tlv.publicKey (totalLength + (← encodeName o.keyName))

def PibPublicKey.wireDecode (_ : PibPublicKey) (wire : Block) : Except Error PibPublicKey := do
  checkWire wire
  checkType tlv.publicKey "Unexpected TLV type when decoding PibPublicKey" wire
  let it ← orThrow wire.elements
  let (b, it) ← expect tlv.name "PibPublicKey requires the first sub-TLV to be Name" it
  let keyName ← decodeName b
  let (b, it) ← expect tlv.bytes "PibPublicKey requires the second sub-TLV to be Bytes" it
  let key ← orThrow (toPublicKey b.value)
  expectEnd "PibPublicKey must contain only two sub-TLVs" it
  return { isValueSet := true, keyName := keyName, key := key }

instance : WireFormat PibPublicKey := ⟨{}, PibPublicKey.wireEncode, PibPublicKey.wireDecode⟩

/-! ## Certificates -/

structure PibCertificate where
  isValueSet : Bool := false
  certificate : Option IdentityCertificate := none
  deriving DecidableEq

def PibCertificate.getCertificate (o : PibCertificate) : Except Error (Option IdentityCertificate) :=
  if o.isValueSet then .ok o.certificate
  else .error (.thrown "PibCertificate::getCertificate: certificate is not set")

def PibCertificate.wireEncode (o : PibCertificate) : Encoder ℕ := do
  prependHeader tlv.certificate (← encodeCertificate o.certificate)

def PibCertificate.wireDecode (_ : PibCertificate) (wire : Block) : Except Error PibCertificate := do
  checkWire wire
  checkType tlv.certificate "Unexpected TLV type when decoding PibCertificate" wire
  let certificate ← decodeCertificate (← orThrow wire.fromValue)
  return { isValueSet := true, certificate := some certificate }

instance : WireFormat PibCertificate := ⟨{}, PibCertificate.wireEncode, PibCertificate.wireDecode⟩

/-! ## Lists of names -/

structure PibNameList where
  names : List Name := []
  deriving DecidableEq

/-- The loop of `PibNameList::wireEncode`, which begins with the last name. -/
def encodeNames : List Name → Encoder ℕ
  | [] => return 0
  | name :: names => do return (← encodeNames names) + (← encodeName name)

def PibNameList.wireEncode (o : PibNameList) : Encoder ℕ := do
  prependHeader tlv.nameList (← encodeNames o.names)

/-- The loop of `PibNameList::wireDecode`, which adds to the names that are there. -/
def decodeNames : (it : List Block) → (names : List Name) → Except Error (List Name)
  | [], names => .ok names
  | b :: it, names => do
    if b.type = tlv.name then decodeNames it (names ++ [← decodeName b]) else decodeNames it names

def PibNameList.wireDecode (o : PibNameList) (wire : Block) : Except Error PibNameList := do
  checkWire wire
  checkType tlv.nameList "Unexpected TLV type when decoding PibNameList" wire
  return { names := ← decodeNames (← orThrow wire.elements) o.names }

instance : WireFormat PibNameList := ⟨{}, PibNameList.wireEncode, PibNameList.wireDecode⟩

/-! ## Errors -/

def errSuccess : UInt32 := 0

structure PibError where
  errCode : UInt32 := errSuccess
  msg : Bytes := []
  deriving DecidableEq

def PibError.wireEncode (o : PibError) : Encoder ℕ := do
  let totalLength ← prependByteArrayBlock tlv.bytes o.msg
  prependHeader tlv.error (totalLength + (← prependNonNegativeIntegerBlock tlv.errorCode o.errCode.toNat))

def PibError.wireDecode (_ : PibError) (wire : Block) : Except Error PibError := do
  checkWire wire
  checkType tlv.error "Unexpected TLV type when decoding Error" wire
  let it ← orThrow wire.elements
  let (b, it) ← expect tlv.errorCode "PibError requires the first sub-TLV to be ErrorCode" it
  let errCode ← readEnum b
  let (b, _) ← expect tlv.bytes "PibError requires the second sub-TLV to be Bytes" it
  return { errCode := errCode, msg := b.value }

instance : WireFormat PibError := ⟨{}, PibError.wireEncode, PibError.wireDecode⟩

/-! ## Users -/

structure PibUser where
  mgmtCert : Option IdentityCertificate := none
  tpmLocator : Bytes := []
  deriving DecidableEq

/-- A setter takes away the block that is kept. -/
def PibUser.setMgmtCert (mgmtCert : IdentityCertificate) (o : Kept PibUser) : Kept PibUser :=
  { fields := { o.fields with mgmtCert := some mgmtCert } }

def PibUser.setTpmLocator (tpmLocator : Bytes) (o : Kept PibUser) : Kept PibUser :=
  { fields := { o.fields with tpmLocator := tpmLocator } }

/-- The locator is written if there is one. -/
def PibUser.encodeLocator (o : PibUser) : Encoder ℕ :=
  if o.tpmLocator ≠ [] then prependByteArrayBlock tlv.tpmLocator o.tpmLocator else pure 0

def PibUser.wireEncode (o : PibUser) : Encoder ℕ := do
  let totalLength ← o.encodeLocator
  prependHeader tlv.user (totalLength + (← encodeCertificate o.mgmtCert))

/-- A locator that is not in the block is left as it was. -/
def PibUser.wireDecode (o : PibUser) (wire : Block) : Except Error PibUser := do
  checkWire wire
  checkType tlv.user "Unexpected TLV type when decoding Content" wire
  let it ← orThrow wire.elements
  let (b, it) ← expect tlv.data "PibError requires the first sub-TLV to be Data" it
  let mgmtCert ← decodeCertificate b
  match it with
  | b :: _ =>
    let tpmLocator := if b.type = tlv.tpmLocator then b.value else o.tpmLocator
    return { mgmtCert := some mgmtCert, tpmLocator := tpmLocator }
  | [] => return { o with mgmtCert := some mgmtCert }

instance : WireFormat PibUser := ⟨{}, PibUser.wireEncode, PibUser.wireDecode⟩

end NdnTools.Pib.Encoding
