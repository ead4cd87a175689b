/-
The commands that change the PIB (`update-query-processor.cpp`, `delete-query-processor.cpp`), from
their decoded parameters and the name in the key locator of their signature. An exception ends in an
error that `operator()` answers with; reading the management certificate when there is none ends the
program.
-/
import NdnTools.Lib.Run
import NdnTools.Pib.Db

namespace NdnTools.Pib

/-! ## Parameters and answers -/

inductive ErrCode
  | success
  | wrongParam
  | wrongSigner
  | internalError
  deriving Repr, DecidableEq

structure PibError where
  code : ErrCode
  message : String
  deriving Repr, DecidableEq

def PibError.success : PibError := ⟨.success, ""⟩

/-- What a handler throws; the last is no exception but a null pointer dereferenced. -/
inductive Thrown
  | pibDb (what : String)
  | tlv (what : String)
  | nullPointer
  deriving Repr, DecidableEq

inductive TargetType
  | user
  | id
  | key
  | cert
  deriving Repr, DecidableEq

/-- The values of `DefaultOpt`; a parameter may hold any other number as well. -/
def defaultOptKey : UInt32 := 1

def defaultOptId : UInt32 := 3

def defaultOptUser : UInt32 := 7

/-- `DEFAULT_OPT_KEY_MASK & defaultOpt` -/
def setsKeyDefault (defaultOpt : UInt32) : Bool := 1 &&& defaultOpt ≠ 0

/-- `DEFAULT_OPT_ID_MASK & defaultOpt` -/
def setsIdDefault (defaultOpt : UInt32) : Bool := 2 &&& defaultOpt ≠ 0

/-- `DEFAULT_OPT_USER_MASK & defaultOpt` -/
def setsUserDefault (defaultOpt : UInt32) : Bool := 4 &&& defaultOpt ≠ 0

variable [Certificates]

inductive Entity
  | user (mgmtCert : IdentityCertificate)
  | identity (identity : Name)
  | publicKey (keyName : Name) (key : PublicKey)
  | certificate (certificate : IdentityCertificate)

structure UpdateParam where
  entity : Entity
  defaultOpt : UInt32

/-- The target type is a number that may be none of the four. -/
structure DeleteParam where
  targetType : UInt32
  targetName : Name
  deriving Repr, DecidableEq

def signerNotTrusted : PibError := ⟨.wrongSigner, "signer is not trusted for this command"⟩

/-- `getMgmtCertificate()`, dereferenced. -/
def mgmtCertificate (db : Db) : Except Thrown IdentityCertificate :=
  match db.getMgmtCertificate with
  | none => .error .nullPointer
  | some certificate => .ok certificate

/-- `certificateNameToPublicKeyName`, whose exception is a `tlv::Error`. -/
def toPublicKeyName (certName : Name) : Except Thrown Name :=
  match certificateNameToPublicKeyName certName with
  | .error what => .error (.tlv what)
  | .ok keyName => .ok keyName

/-- How `operator()` ends. -/
def answer (db : Db) : Except Thrown (Db × PibError) → Option (Db × PibError)
  | .ok result => some result
  | .error (.pibDb what) => some (db, ⟨.internalError, what⟩)
  | .error (.tlv what) => some (db, ⟨.wrongParam, "error in parsing param: " ++ what⟩)
  | .error .nullPointer => none

/-- How a handler ends: the command is carried out if it is allowed. -/
def carryOut (allowed : Except Thrown Bool) (db next : Db) : Except Thrown (Db × PibError) := do
  if ← allowed then .ok (next, .success) else .ok (db, signerNotTrusted)

variable {db db' : Db}

/-- An exception changes nothing. -/
theorem answer_cases {result : Except Thrown (Db × PibError)} {reply : PibError}
    (hok : answer db result = some (db', reply)) : result = .ok (db', reply) ∨ db' = db := by
  rcases result with thrown | result
  · cases thrown <;> cases hok <;> exact .inr rfl
  · cases hok; exact .inl rfl

/-- A handler leaves the database as it is or carries the command out, which is allowed then. -/
theorem carryOut_allowed {allowed : Except Thrown Bool} {next : Db} {reply : PibError}
    (hok : answer db (carryOut allowed db next) = some (db', reply)) :
    db' = db ∨ (allowed = .ok true ∧ db' = next) := by
  rcases allowed with thrown | (_ | _)
  · cases thrown <;> cases hok <;> exact .inl rfl
  · cases hok; exact .inl rfl
  · cases hok; exact .inr ⟨rfl, rfl⟩

theorem carryOut_cases {allowed : Except Thrown Bool} {next : Db} {reply : PibError}
    (hok : answer db (carryOut allowed db next) = some (db', reply)) : db' = db ∨ db' = next :=
  (carryOut_allowed hok).imp_right And.right

/-- A command that is answered with success was allowed and is carried out. -/
theorem carryOut_success {allowed : Except Thrown Bool} {next : Db} {reply : PibError}
    (hok : answer db (carryOut allowed db next) = some (db', reply)) (hcode : reply.code = .success) :
    allowed = .ok true ∧ db' = next := by
  rcases allowed with thrown | (_ | _)
  · cases thrown <;> cases hok <;> cases hcode
  · cases hok; cases hcode
  · cases hok; exact ⟨rfl, rfl⟩

/-! ## Update -/

namespace UpdateQueryProcessor

/-- The database gives a reserved name, not an exception, if there is no default key. -/
def isUpdateAllowed (db : Db) (targetType : TargetType) (targetName signer : Name) (defaultOpt : UInt32) :
    Except Thrown Bool :=
  if localhostPib <+: targetName then .ok false
  -- the target has no default of the kind that is asked for
  else if (defaultOpt = defaultOptId ∧ targetType ≠ .key ∧ targetType ≠ .cert) ∨
      (defaultOpt = defaultOptKey ∧ targetType ≠ .cert) then .ok false
  else do
    let signerKeyName ← toPublicKeyName signer
    let signerId := getPrefix signerKeyName
    let signerDefaultKeyName := db.getDefaultKeyNameOfIdentity signerId
    let mgmtCert ← mgmtCertificate db
    if signer = getPrefix mgmtCert.name then .ok true
    -- the default key of an identity
    else if signerDefaultKeyName = signerKeyName then
      if ¬ signerId <+: targetName then .ok false else .ok (decide (defaultOpt ≠ defaultOptUser))
    -- any other key: its own certificates only
    else if targetType ≠ .cert then .ok false
    else do
      let targetKeyName ← toPublicKeyName targetName
      if targetKeyName ≠ signerKeyName then .ok false
      else .ok (decide ¬ (defaultOpt = defaultOptUser ∨ defaultOpt = defaultOptId))

def processUpdateUserQuery (db : Db) (mgmtCert : IdentityCertificate) (signerName : Name) :
    Except Thrown (Db × PibError) := do
  let expectedId := getPrefix (← mgmtCertificate db).publicKeyName
  let targetId := getPrefix mgmtCert.publicKeyName
  let signerId := getPrefix (← toPublicKeyName signerName)
  if expectedId = targetId ∧ expectedId = signerId then
    match db.updateMgmtCertificate mgmtCert with
    | .error what => .error (.pibDb what)
    | .ok db => .ok (db, .success)
  else .ok (db, ⟨.wrongParam, "not allowed to update user"⟩)

/-- Sets the certificate as key default if it is requested. -/
def setKeyDefault (defaultOpt : UInt32) (certName : Name) (db : Db) : Db :=
  if setsKeyDefault defaultOpt then db.setDefaultCertNameOfKey certName else db

/-- Sets the key as identity default if it is requested. -/
def setIdDefault (defaultOpt : UInt32) (keyName : Name) (db : Db) : Db :=
  if setsIdDefault defaultOpt then db.setDefaultKeyNameOfIdentity keyName else db

/-- Sets the identity as user default if it is requested. -/
def setUserDefault (defaultOpt : UInt32) (identity : Name) (db : Db) : Db :=
  if setsUserDefault defaultOpt then db.setDefaultIdentity identity else db

def processUpdateIdQuery (db : Db) (identity : Name) (defaultOpt : UInt32) (signerName : Name) :
    Except Thrown (Db × PibError) :=
  carryOut (isUpdateAllowed db .id identity signerName defaultOpt) db
    (setUserDefault defaultOpt identity (db.addIdentity identity))

def processUpdateKeyQuery (db : Db) (keyName : Name) (key : PublicKey) (defaultOpt : UInt32) (signerName : Name) :
    Except Thrown (Db × PibError) :=
  carryOut (isUpdateAllowed db .key keyName signerName defaultOpt) db
    (setUserDefault defaultOpt (getPrefix keyName) (setIdDefault defaultOpt keyName (db.addKey keyName key)))

def processUpdateCertQuery (db : Db) (cert : IdentityCertificate) (defaultOpt : UInt32) (signerName : Name) :
    Except Thrown (Db × PibError) :=
  carryOut (isUpdateAllowed db .cert cert.name signerName defaultOpt) db
    (setUserDefault defaultOpt (getPrefix cert.publicKeyName)
      (setIdDefault defaultOpt cert.publicKeyName
        (setKeyDefault defaultOpt cert.name (db.addCertificate cert))))

/-- `operator()` -/
def process (db : Db) (param : UpdateParam) (signerName : Name) : Option (Db × PibError) :=
  answer db <|
    match param.entity with
    | .user mgmtCert => processUpdateUserQuery db mgmtCert signerName
    | .identity identity => processUpdateIdQuery db identity param.defaultOpt signerName
    | .publicKey keyName key => processUpdateKeyQuery db keyName key param.defaultOpt signerName
    | .certificate cert => processUpdateCertQuery db cert param.defaultOpt signerName

end UpdateQueryProcessor

/-! ## Delete -/

namespace DeleteQueryProcessor

def isDeleteAllowed (db : Db) (targetType : TargetType) (targetName signer : Name) : Except Thrown Bool :=
  if targetType = .user then .ok false
  else if localhostPib <+: targetName then .ok false
  else do
    let signerKeyName ← toPublicKeyName signer
    let signerId := getPrefix signerKeyName
    let signerDefaultKeyName := db.getDefaultKeyNameOfIdentity signerId
    let mgmtCert ← mgmtCertificate db
    if signer = getPrefix mgmtCert.name then .ok true
    else if signerDefaultKeyName = signerKeyName then .ok (decide (signerId <+: targetName))
    else
      match targetType with
      | .cert => do
        let targetKeyName ← toPublicKeyName targetName
        .ok (decide (targetKeyName = signerKeyName))
      | .key => .ok (decide (targetName = signerKeyName))
      | _ => .ok false

def processDeleteIdQuery (db : Db) (targetName signerName : Name) : Except Thrown (Db × PibError) :=
  carryOut (isDeleteAllowed db .id targetName signerName) db (db.deleteIdentity targetName)

def processDeleteKeyQuery (db : Db) (targetName signerName : Name) : Except Thrown (Db × PibError) :=
  carryOut (isDeleteAllowed db .key targetName signerName) db (db.deleteKey targetName)

def processDeleteCertQuery (db : Db) (targetName signerName : Name) : Except Thrown (Db × PibError) :=
  carryOut (isDeleteAllowed db .cert targetName signerName) db (db.deleteCertificate targetName)

/-- `operator()` -/
def process (db : Db) (param : DeleteParam) (signerName : Name) : Option (Db × PibError) :=
  answer db <|
    match param.targetType with
    | 0 => .ok (db, ⟨.wrongParam, "not allowed to delete user"⟩)
    | 1 => processDeleteIdQuery db param.targetName signerName
    | 2 => processDeleteKeyQuery db param.targetName signerName
    | 3 => processDeleteCertQuery db param.targetName signerName
    | n => .ok (db, ⟨.wrongParam, "target type is not supported: " ++ toString n⟩)

end DeleteQueryProcessor

/-! ## Commands -/

/-- A command that changes the PIB. -/
inductive Command
  | update (param : UpdateParam)
  | delete (param : DeleteParam)

def Command.process (db : Db) (signerName : Name) : Command → Option (Db × PibError)
  | .update param => UpdateQueryProcessor.process db param signerName
  | .delete param => DeleteQueryProcessor.process db param signerName

/-- A PIB that serves commands, until one ends the program. -/
def pibService : Machine Db (Command × Name) where
  enabled db e := (e.1.process db e.2).isSome = true
  step db e := ((e.1.process db e.2).map Prod.fst).getD db

/-- A command that is enabled is answered. -/
theorem process_of_enabled {e : Command × Name} (he : pibService.enabled db e) :
    ∃ reply, e.1.process db e.2 = some (pibService.step db e, reply) := by
  obtain ⟨⟨db', reply⟩, hok⟩ := Option.isSome_iff_exists.1 he
  have hstep : pibService.step db e = db' := by
    change ((e.1.process db e.2).map Prod.fst).getD db = db'
    rw [hok]
    rfl
  exact ⟨reply, by rw [hstep]; exact hok⟩

end NdnTools.Pib
