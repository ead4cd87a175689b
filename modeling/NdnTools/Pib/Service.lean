/-
The PIB service (`pib.cpp`): from the Interests that the Face hands over, in whatever order and signed by
whomever, to the packets that are put to it. Commands are validated before they are processed, and the
validator follows the calls that a command makes on the database. The packets are also kept in a cache
that nothing reads, which is left out.

The database changes as `pibService` has it under the authentic commands alone, and what a client reads in
the answer of a query is what those that were accepted have made of the contents.
-/
import NdnTools.Pib.Calls
import NdnTools.Pib.DefaultQuery
import NdnTools.Pib.Queries

namespace NdnTools.Pib

open Tlv

section
variable [Certificates] [Encoding.Formats]

/-- `SignatureInfo`, which a `Signature` is constructed with. -/
class SignatureInfos extends SignedInterests where
  decodeSignatureInfo : Component → Except Error (Option KeyLocator)
  decodeSignatureInfo_eq : ∀ {info value signature}, decodeSignature info value = .ok signature →
    decodeSignatureInfo info = .ok signature.keyLocator

export SignatureInfos (decodeSignatureInfo decodeSignatureInfo_eq)

variable [SignatureInfos]

/-! ## Requests -/

/-- What an Interest for a command asks for, as `operator()` reads it before it calls a handler. -/
inductive Request
  | discarded
  | refused (reply : Reply)
  | command (command : Command) (signerName : Name)

/-- `sigInfo.getKeyLocator().getName()` -/
def decodeSigner (interestName : Name) : Except Error Name := do
  match ← decodeSignatureInfo (interestName.getD offsetSigInfo []) with
  | some (.name signerName) => return signerName
  | _ => .error .library

/-- The parameters and the signer of a command, or the error that is answered if they are not decoded. -/
def request {α : Type} [WireFormat α] (library : Bytes) (command : α → Except Error (Reply ⊕ Command))
    (interestName : Name) : Request :=
  if interestName.length ≠ signedPibInterestSize then .discarded
  else
    let decoded : Except Error (Name × (Reply ⊕ Command)) := do
      let param ← decodeParam α interestName
      let signerName ← decodeSigner interestName
      return (signerName, ← command param)
    match decoded with
    | .error e => .refused (.error errWrongParam (("error in parsing param: " : Component) ++ what library e))
    | .ok (_, .inl reply) => .refused reply
    | .ok (signerName, .inr command) => .command command signerName

namespace UpdateQueryProcessor

/-- The switch over the type; what was decoded has a value, which the getters give. -/
def command (param : Encoding.UpdateParam) : Except Error (Reply ⊕ Command) :=
  let update (entity : Entity) : Reply ⊕ Command := .inr (.update ⟨entity, param.defaultOpt⟩)
  if param.entityType = Encoding.tlv.user then do
    return update (.user (← orThrow (← param.getUser).mgmtCert))
  else if param.entityType = Encoding.tlv.identity then do
    return update (.identity (← param.getIdentity).identity)
  else if param.entityType = Encoding.tlv.publicKey then do
    let key ← param.getPublicKey
    return update (.publicKey (← key.getKeyName) (← key.getPublicKey))
  else if param.entityType = Encoding.tlv.certificate then do
    return update (.certificate (← orThrow (← (← param.getCertificate).getCertificate)))
  else
    return .inl (.error errWrongParam
      (("entity type is not supported: " : Component) ++ (toString param.entityType : Component)))

def request (library : Bytes) (interestName : Name) : Request := Pib.request library command interestName

end UpdateQueryProcessor

namespace DeleteQueryProcessor

/-- The switch over the type is in `process`. -/
def command (param : Encoding.DeleteParam) : Except Error (Reply ⊕ Command) :=
  return .inr (.delete ⟨param.targetType, param.targetName⟩)

def request (library : Bytes) (interestName : Name) : Request := Pib.request library command interestName

end DeleteQueryProcessor

/-! ## Replies -/

def errSuccess : UInt32 := 0
def errWrongSigner : UInt32 := 4
def errInternalError : UInt32 := 5
def errNoDefaultId : UInt32 := 256
def errNoDefaultKey : UInt32 := 257
def errNoDefaultCert : UInt32 := 258

def ErrCode.value : ErrCode → UInt32
  | .success => errSuccess
  | .wrongParam => errWrongParam
  | .wrongSigner => errWrongSigner
  | .internalError => errInternalError

def PibError.toReply (e : PibError) : Reply := .error e.code.value (e.message : Component)

namespace DefaultQueryProcessor

def ErrCode.value : ErrCode → UInt32
  | .wrongParam => errWrongParam
  | .noDefaultId => errNoDefaultId
  | .noDefaultKey => errNoDefaultKey
  | .noDefaultCert => errNoDefaultCert

def Answer.toReply : Answer → Reply
  | .error e => .error e.code.value (e.message : Component)
  | .ok (.identity identity) => .identity identity
  | .ok (.publicKey keyName key) => .publicKey keyName key
  | .ok (.certificate certificate) => .certificate certificate

/-- `operator()` -/
def operator (library : String) (db : Db) (interestName : Name) : Except Error (Option Block) :=
  match process library db interestName with
  | none => .ok none
  | some result => do return some (← result.toReply.encode)

end DefaultQueryProcessor

/-! ## The service -/

/-- A packet that is put to the Face. -/
inductive Packet
  | data (name : Name) (content : Block)
  | certificate (certificate : IdentityCertificate)

/-- `Pib`: the database with its validator, and what it keeps itself. -/
structure Service where
  owner : Component
  tpmLocator : Bytes
  mgmtCert : Option IdentityCertificate
  validated : ValidatedDb

/-- An Interest that the Face hands over, and the version that is appended to its name in an answer. -/
structure Received where
  interestName : Name
  version : Component

/-- The texts of the exceptions of the library. -/
structure LibraryTexts where
  octets : Bytes
  text : String

namespace Service

def getVerb : Component := "get"
def defaultVerb : Component := "default"
def listVerb : Component := "list"
def updateVerb : Component := "update"
def deleteVerb : Component := "delete"

/-- `Name(pibPrefix).append(verb)`, for which a filter is set. -/
def filterFor (verb : Component) (s : Service) : Name := localhostPib ++ [s.owner, verb]

/-- `Pib::Pib` on a database whose TPM has the private keys of some names; the management certificate is generated
if it is missing, or its private key is. -/
def create (owner : Component) (tpmLocator storedLocator : Bytes) (doesKeyExistInTpm : Name → Bool)
    (generated : IdentityCertificate) (db : Db) : Except String Service :=
  if db.getOwnerName.isSome ∧ db.getOwnerName ≠ some owner then
    .error "owner argument differs from OwnerName in database"
  else if storedLocator ≠ [] ∧ storedLocator ≠ tpmLocator then
    .error "tpmLocator argument differs from TpmLocator in database"
  else
    match db.getMgmtCertificate.filter fun cert => doesKeyExistInTpm cert.publicKeyName with
    | some mgmtCert => .ok ⟨owner, tpmLocator, some mgmtCert, .init db⟩
    | none => do
      let db' ← db.updateMgmtCertificate generated
      return ⟨owner, tpmLocator, some generated, ⟨db', (PibValidator.init db).mgmtCertificateChanged db'⟩⟩

/-- `setMgmtCert`, for a command that is answered with success. -/
def setMgmtCert (command : Command) (s : Service) : Service :=
  match command.newMgmtCert with
  | some mgmtCert => { s with mgmtCert := some mgmtCert }
  | none => s

/-- `returnResult`, for a result with a block. -/
def returnResult (e : Received) (result : Option Block) : List Packet :=
  result.toList.map fun content => .data (e.interestName ++ [e.version]) content

/-- The rest of `processCommand` for a command; nothing follows an exception that is not caught, or a null pointer
dereferenced. -/
def serve (e : Received) (s : Service) : Request → Option (Service × List Packet)
  | .discarded => some (s, [])
  | .refused reply => do
    let content ← reply.encode.toOption
    return (s, returnResult e (some content))
  | .command command signerName => do
    let (_, error) ← command.process s.validated.db signerName
    let content ← error.toReply.encode.toOption
    let s := if error.code = .success then
      setMgmtCert command { s with validated := validatorMachine.exec s.validated command.calls } else s
    return (s, returnResult e (some content))

/-- The handler of an Interest for a signed command. -/
def onSignedCommand (e : Received) (request : Request) (s : Service) : Option (Service × List Packet) :=
  let (validator, outcome) := s.validated.validator.checkPolicy s.validated.db e.interestName
  let s := { s with validated := { s.validated with validator := validator } }
  match outcome with
  | .verified _ true => serve e s request
  | .verified _ false => some (s, [])
  | .failed _ => some (s, [])
  | .nullPointer => none

/-- The handlers of the filters; no Interest is under the prefixes of two. -/
def onInterest (texts : LibraryTexts) (e : Received) (s : Service) : Option (Service × List Packet) :=
  if s.filterFor mgmtLabel <+: e.interestName then some (s, s.mgmtCert.toList.map .certificate)
  else if s.filterFor getVerb <+: e.interestName then do
    let result ← (GetQueryProcessor.operator texts.octets s.validated.db s.tpmLocator e.interestName).toOption
    return (s, returnResult e result)
  else if s.filterFor defaultVerb <+: e.interestName then do
    let result ← (DefaultQueryProcessor.operator texts.text s.validated.db e.interestName).toOption
    return (s, returnResult e result)
  else if s.filterFor listVerb <+: e.interestName then do
    let result ← (ListQueryProcessor.operator texts.octets s.validated.db e.interestName).toOption
    return (s, returnResult e result)
  else if s.filterFor updateVerb <+: e.interestName then
    onSignedCommand e (UpdateQueryProcessor.request texts.octets e.interestName) s
  else if s.filterFor deleteVerb <+: e.interestName then
    onSignedCommand e (DeleteQueryProcessor.request texts.octets e.interestName) s
  else some (s, [])

/-- The service while Interests come, until one ends the program. -/
def machine (texts : LibraryTexts) : Machine Service Received where
  enabled s e := (s.onInterest texts e).isSome = true
  step s e := ((s.onInterest texts e).map Prod.fst).getD s

instance (texts : LibraryTexts) (s : Service) (e : Received) : Decidable ((machine texts).enabled s e) :=
  inferInstanceAs (Decidable (_ = true))

end Service

/-! ## Authentic commands -/

/-- The command in an Interest whose signature is valid, with its signer. -/
def Request.authentic (request : Request) : Outcome → List (Command × Name)
  | .verified _ true =>
    match request with
    | .command c signerName => [(c, signerName)]
    | _ => []
  | _ => []

namespace Service

/-- The request in an Interest for a signed command. -/
def requestOf (texts : LibraryTexts) (s : Service) (e : Received) : Request :=
  if s.filterFor updateVerb <+: e.interestName then UpdateQueryProcessor.request texts.octets e.interestName
  else if s.filterFor deleteVerb <+: e.interestName then DeleteQueryProcessor.request texts.octets e.interestName
  else .discarded

/-- The command that an Interest has processed. -/
def authenticCommand (texts : LibraryTexts) (s : Service) (e : Received) : List (Command × Name) :=
  (requestOf texts s e).authentic (s.validated.validator.checkPolicy s.validated.db e.interestName).2

end Service

end

end NdnTools.Pib
