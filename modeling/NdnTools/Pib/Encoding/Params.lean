/-
The parameters of the commands as blocks (`get-param.cpp`, `list-param.cpp`, `default-param.cpp`,
`update-param.cpp` and `delete-param.cpp`). An enumerator can have any value of its 32 bits.
-/
import NdnTools.Pib.Encoding.Entities

namespace NdnTools.Pib.Encoding

open Tlv

variable [Certificates] [Formats]

def typeUser : UInt32 := 0
def typeId : UInt32 := 1
def typeKey : UInt32 := 2
def typeCert : UInt32 := 3
def typeDefault : UInt32 := 255

def defaultOptNo : UInt32 := 0

/-! ## The name that some types call for -/

/-- The cases of the switches over a type that have a name. -/
def callsForName (type : UInt32) : Bool := type = typeId ∨ type = typeKey ∨ type = typeCert

def encodeNameOf (unsupported : String) (type : UInt32) (name : Name) : Encoder ℕ :=
  if callsForName type then encodeName name
  else if type = typeUser then pure 0
  else throw (.thrown (unsupported ++ toString type))

/-- The name, which is read from the next element, or left as it was. -/
def decodeNameOf (missing unsupported : String) (type : UInt32) (name : Name) (it : List Block) : Except Error Name :=
  if callsForName type then
    match it with
    | b :: _ => decodeName b
    | [] => .error (.thrown missing)
  else if type = typeUser then .ok name
  else .error (.thrown (unsupported ++ toString type))

def getNameOf (what : String) (type : UInt32) (name : Name) : Except Error Name :=
  if callsForName type then .ok name else .error (.thrown what)

def encodeType (type : UInt32) : Encoder ℕ := prependNonNegativeIntegerBlock tlv.type type.toNat

/-- The next element, which must be a type. -/
def expectType (what : String) (it : List Block) : Except Error (UInt32 × List Block) := do
  let (b, it) ← expect tlv.type what it
  return (← readEnum b, it)

/-! ## Parameters of get -/

structure GetParam where
  targetType : UInt32 := typeUser
  targetName : Name := []
  deriving DecidableEq

def GetParam.getTargetName (o : GetParam) : Except Error Name :=
  getNameOf "GetParam::getTargetName: target name does not exist" o.targetType o.targetName

def GetParam.wireEncode (o : GetParam) : Encoder ℕ := do
  let totalLength ← encodeNameOf "GetParam::wireEncode: unsupported PibType: " o.targetType o.targetName
  prependHeader tlv.getParam (totalLength + (← encodeType o.targetType))

def GetParam.wireDecode (o : GetParam) (wire : Block) : Except Error GetParam := do
  checkWire wire
  let it ← orThrow wire.elements
  checkType tlv.getParam "Unexpected TLV type when decoding GetParam" wire
  let (targetType, it) ← expectType "GetParam requires the first sub-TLV to be PibType" it
  let targetName ← decodeNameOf "GetParam requires the second sub-TLV to be Name"
    "GetParam::wireDecode: unsupported PibType: " targetType o.targetName it
  return { targetType := targetType, targetName := targetName }

instance : WireFormat GetParam := ⟨{}, GetParam.wireEncode, GetParam.wireDecode⟩

/-! ## Parameters of list -/

structure ListParam where
  originType : UInt32 := typeUser
  originName : Name := []
  deriving DecidableEq

def ListParam.getOriginName (o : ListParam) : Except Error Name :=
  getNameOf "ListParam::getOriginName: origin name does not exist" o.originType o.originName

def ListParam.wireEncode (o : ListParam) : Encoder ℕ := do
  let totalLength ← encodeNameOf "ListParam::wireEncode: unsupported PibType: " o.originType o.originName
  prependHeader tlv.listParam (totalLength + (← encodeType o.originType))

def ListParam.wireDecode (o : ListParam) (wire : Block) : Except Error ListParam := do
  checkWire wire
  let it ← orThrow wire.elements
  checkType tlv.listParam "Unexpected TLV type when decoding ListParam" wire
  let (originType, it) ← expectType "ListParam requires the first sub-TLV to be PibType" it
  let originName ← decodeNameOf "ListParam requires the second sub-TLV to be Name"
    "ListParam::wireDecode: unsupported PibType: " originType o.originName it
  return { originType := originType, originName := originName }

instance : WireFormat ListParam := ⟨{}, ListParam.wireEncode, ListParam.wireDecode⟩

/-! ## Parameters of default -/

structure DefaultParam where
  targetType : UInt32 := typeDefault
  originType : UInt32 := typeDefault
  originName : Name := []
  deriving DecidableEq

def DefaultParam.getOriginName (o : DefaultParam) : Except Error Name :=
  getNameOf "DefaultParam::getOriginName: origin name does not exist" o.originType o.originName

def DefaultParam.wireEncode (o : DefaultParam) : Encoder ℕ := do
  let totalLength ← encodeNameOf "DefaultParam::wireEncode: unsupported PibType: " o.originType o.originName
  let totalLength := totalLength + (← encodeType o.originType)
  prependHeader tlv.defaultParam (totalLength + (← encodeType o.targetType))

def DefaultParam.wireDecode (o : DefaultParam) (wire : Block) : Except Error DefaultParam := do
  checkWire wire
  let it ← orThrow wire.elements
  checkType tlv.defaultParam "Unexpected TLV type when decoding DefaultParam" wire
  let (targetType, it) ← expectType "DefaultParam requires the first sub-TLV to be PibType" it
  let (originType, it) ← expectType "DefaultParam requires the second sub-TLV to be PibType" it
  let originName ← decodeNameOf "DefaultParam requires the third sub-TLV to be Name"
    "DefaultParam::wireDecode: unsupported PibType: " originType o.originName it
  return { targetType := targetType, originType := originType, originName := originName }

instance : WireFormat DefaultParam := ⟨{}, DefaultParam.wireEncode, DefaultParam.wireDecode⟩

/-! ## Parameters of delete -/

structure DeleteParam where
  targetType : UInt32 := typeDefault
  targetName : Name := []
  deriving DecidableEq

def DeleteParam.wireEncode (o : DeleteParam) : Encoder ℕ :=
  if o.targetType ≠ typeId ∧ o.targetType ≠ typeKey ∧ o.targetType ≠ typeCert ∧ o.targetType ≠ typeUser then
    throw (.thrown ("DeleteParam::wireEncode: Wrong Type value: " ++ toString o.targetType))
  else do
    let totalLength ← encodeName o.targetName
    prependHeader tlv.deleteParam (totalLength + (← encodeType o.targetType))

def DeleteParam.wireDecode (_ : DeleteParam) (wire : Block) : Except Error DeleteParam := do
  checkWire wire
  let it ← orThrow wire.elements
  checkType tlv.deleteParam "Unexpected TLV type when decoding DeleteParam" wire
  let (targetType, it) ← expectType "DeleteParam requires the first sub-TLV to be Type" it
  let (b, it) ← expect tlv.name "DeleteParam requires the second sub-TLV to be Name" it
  let targetName ← decodeName b
  expectEnd "DeleteParam must not contain more than two sub-TLVs" it
  return { targetType := targetType, targetName := targetName }

instance : WireFormat DeleteParam := ⟨{}, DeleteParam.wireEncode, DeleteParam.wireDecode⟩

/-! ## Parameters of update -/

/-- The default constructor gives no value to `entityType`, so that it can be any. -/
structure UpdateParam where
  entityType : ℕ := 0
  user : PibUser := {}
  identity : PibIdentity := {}
  key : PibPublicKey := {}
  certificate : PibCertificate := {}
  defaultOpt : UInt32 := defaultOptNo
  deriving DecidableEq

namespace UpdateParam

/-- A getter of an entity, which is refused if the parameters are for another type. -/
def getEntity {α : Type} (type : ℕ) (what : String) (entity : α) (o : UpdateParam) : Except Error α :=
  if o.entityType = type then .ok entity else .error (.thrown what)

def getUser (o : UpdateParam) : Except Error PibUser :=
  o.getEntity tlv.user "UpdateParam::getUser: entityType must be User" o.user

def getIdentity (o : UpdateParam) : Except Error PibIdentity :=
  o.getEntity tlv.identity "UpdateParam::getIdentity: entityType must be Identity" o.identity

def getPublicKey (o : UpdateParam) : Except Error PibPublicKey :=
  o.getEntity tlv.publicKey "UpdateParam::getPublicKey: entityType must be PublicKey" o.key

def getCertificate (o : UpdateParam) : Except Error PibCertificate :=
  o.getEntity tlv.certificate "UpdateParam::getCertificate: entityType must be Certificate" o.certificate

def encodeEntity (o : UpdateParam) : Encoder ℕ :=
  if o.entityType = tlv.identity then o.identity.wireEncode
  else if o.entityType = tlv.publicKey then o.key.wireEncode
  else if o.entityType = tlv.certificate then o.certificate.wireEncode
  else if o.entityType = tlv.user then o.user.wireEncode
  else throw (.thrown ("UpdateParam::wireEncode: unsupported entity type: " ++ toString o.entityType))

def wireEncode (o : UpdateParam) : Encoder ℕ := do
  let totalLength ← prependNonNegativeIntegerBlock tlv.defaultOpt o.defaultOpt.toNat
  prependHeader tlv.updateParam (totalLength + (← o.encodeEntity))

def decodeEntity (o : UpdateParam) (b : Block) : Except Error UpdateParam :=
  if b.type = tlv.identity then do
    return { o with entityType := tlv.identity, identity := ← o.identity.wireDecode b }
  else if b.type = tlv.publicKey then do
    return { o with entityType := tlv.publicKey, key := ← o.key.wireDecode b }
  else if b.type = tlv.certificate then do
    return { o with entityType := tlv.certificate, certificate := ← o.certificate.wireDecode b }
  else if b.type = tlv.user then do
    return { o with entityType := tlv.user, user := ← o.user.wireDecode b }
  else .error (.thrown "The first sub-TLV of UpdateParam is not an entity type")

def wireDecode (o : UpdateParam) (wire : Block) : Except Error UpdateParam := do
  checkWire wire
  let it ← orThrow wire.elements
  checkType tlv.updateParam "Unexpected TLV type when decoding UpdateParam" wire
  match it with
  | [] => .error (.thrown "UpdateParam requires the first sub-TLV to be an entity type")
  | b :: it =>
    let o ← o.decodeEntity b
    let (b, it) ← expect tlv.defaultOpt "UpdateParam requires the second sub-TLV to be DefaultOpt" it
    let defaultOpt ← readEnum b
    expectEnd "UpdateParam must not contain more than two sub-TLVs" it
    return { o with defaultOpt := defaultOpt }

end UpdateParam

instance : WireFormat UpdateParam := ⟨{}, UpdateParam.wireEncode, UpdateParam.wireDecode⟩

end NdnTools.Pib.Encoding
