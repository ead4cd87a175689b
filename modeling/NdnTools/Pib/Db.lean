/-
The database of the PIB (`pib-db.cpp`): the tables with what their triggers, unique indices and
cascades do. The triggers that only report changes are left out, and so is what nothing reads: the
type of a key and the TPM locator.
-/
import NdnTools.Lib.DefaultTable
import NdnTools.Pib.Name

namespace NdnTools.Pib

variable [Certificates]

/-- The row of the table `mgmt`; `owner` is also the value of `m_owner`. -/
structure Mgmt where
  owner : Component
  localManagementCert : IdentityCertificate
  deriving DecidableEq

/-- The scope of an identity is the whole table, that of a key the id of its identity, and that of a
certificate the id of its key. -/
structure Db where
  identities : DefaultTable Unit Name Unit
  keys : DefaultTable ℕ Name PublicKey
  certificates : DefaultTable ℕ Name IdentityCertificate
  mgmt : Option Mgmt
  deriving DecidableEq

namespace Db

/-- A database as it is created. -/
def empty : Db := ⟨[], [], [], none⟩

/-! ## The management certificate -/

def getMgmtCertificate (db : Db) : Option IdentityCertificate := db.mgmt.map Mgmt.localManagementCert

def getOwnerName (db : Db) : Option Component := db.mgmt.map Mgmt.owner

/-- The key of a management certificate is named `/localhost/pib/[UserName]/mgmt/[KeyID]`. -/
def updateMgmtCertificate (certificate : IdentityCertificate) (db : Db) : Except String Db :=
  match certificate.publicKeyName with
  | [a, b, owner, label, _] =>
    if [a, b] ≠ localhostPib ∨ label ≠ mgmtLabel then
      .error "PibDb::updateMgmtCertificate: certificate does not follow the naming convention"
    else
      match db.mgmt with
      | some m =>
        if m.owner ≠ owner then .error "PibDb::updateMgmtCertificate: owner name does not match"
        else .ok { db with mgmt := some { m with localManagementCert := certificate } }
      | none => .ok { db with mgmt := some ⟨owner, certificate⟩ }
  | _ => .error "PibDb::updateMgmtCertificate: certificate does not follow the naming convention"

/-! ## Identities -/

def hasIdentity (identity : Name) (db : Db) : Prop := db.identities.Has identity

instance (identity : Name) (db : Db) : Decidable (hasIdentity identity db) :=
  inferInstanceAs (Decidable (db.identities.Has identity))

def addIdentity (identity : Name) (db : Db) : Db := { db with identities := db.identities.insertRow () identity () }

def setDefaultIdentity (identity : Name) (db : Db) : Db :=
  { db with identities := db.identities.setDefault identity }

def nonExistingIdentity : Name := ["localhost", "reserved", "non-existing-identity"]

/-- The default identity, or a reserved name. -/
def getDefaultIdentity (db : Db) : Name :=
  match db.identities.find? fun i => i.isDefault with
  | none => nonExistingIdentity
  | some i => i.name

/-- `SELECT id FROM identities WHERE identity=?` -/
def identityId (identity : Name) (db : Db) : Option ℕ := (db.identities.row identity).map fun r => r.id

/-! ## Keys -/

def hasKey (keyName : Name) (db : Db) : Prop := db.keys.Has keyName

instance (keyName : Name) (db : Db) :
    Decidable (hasKey keyName db) := inferInstanceAs (Decidable (db.keys.Has keyName))

/-- The identity of a key, which `addKey` adds if it is missing. -/
def ensureIdentity (identity : Name) (db : Db) : Db := if db.hasIdentity identity then db else db.addIdentity identity

/-- The insertion into `keys`, which fails without an identity. -/
def insertKey (keyName : Name) (key : PublicKey) (db : Db) : Db :=
  match db.identityId (getPrefix keyName) with
  | none => db
  | some id => { db with keys := db.keys.insertRow id keyName key }

def addKey (keyName : Name) (key : PublicKey) (db : Db) : Db :=
  if keyName = [] then db else insertKey keyName key (ensureIdentity (getPrefix keyName) db)

/-- `SELECT key_bits FROM keys WHERE key_name=?` -/
def getKey (keyName : Name) (db : Db) : Option PublicKey := (db.keys.row keyName).map fun r => r.data

def setDefaultKeyNameOfIdentity (keyName : Name) (db : Db) : Db := { db with keys := db.keys.setDefault keyName }

def nonExistingKey : Name := ["localhost", "reserved", "non-existing-key"]

/-- The default key of an identity, or a reserved name. -/
def getDefaultKeyNameOfIdentity (identity : Name) (db : Db) : Name :=
  match db.keys.find? fun k => k.isDefault ∧ ∃ i ∈ db.identities, i.id = k.scope ∧ i.name = identity with
  | none => nonExistingKey
  | some k => k.name

/-! ## Certificates -/

def hasCertificate (certificateName : Name) (db : Db) : Prop := db.certificates.Has certificateName

instance (certificateName : Name) (db : Db) : Decidable (hasCertificate certificateName db) :=
  inferInstanceAs (Decidable (db.certificates.Has certificateName))

/-- `SELECT id FROM keys WHERE key_name=?` -/
def keyId (keyName : Name) (db : Db) : Option ℕ := (db.keys.row keyName).map fun r => r.id

/-- The insertion into `certificates`, which fails without a key. -/
def insertCertificate (certificate : IdentityCertificate) (db : Db) : Db :=
  match db.keyId certificate.publicKeyName with
  | none => db
  | some id => { db with certificates := db.certificates.insertRow id certificate.name certificate }

/-- The key of a certificate, which `addCertificate` adds if it is missing. -/
def ensureKey (keyName : Name) (key : PublicKey) (db : Db) :
    Db := if db.hasKey keyName then db else db.addKey keyName key

def addCertificate (certificate : IdentityCertificate) (db : Db) : Db :=
  insertCertificate certificate (ensureKey certificate.publicKeyName certificate.publicKeyInfo db)

/-- `SELECT certificate_data FROM certificates WHERE certificate_name=?` -/
def getCertificate (certificateName : Name) (db : Db) : Option IdentityCertificate :=
  (db.certificates.row certificateName).map fun r => r.data

def setDefaultCertNameOfKey (certificateName : Name) (db : Db) : Db :=
  { db with certificates := db.certificates.setDefault certificateName }

def nonExistingCertificate : Name := ["localhost", "reserved", "non-existing-certificate"]

/-- The default certificate of a key, or a reserved name. -/
def getDefaultCertNameOfKey (keyName : Name) (db : Db) : Name :=
  match db.certificates.find? fun c => c.isDefault ∧ ∃ k ∈ db.keys, k.id = c.scope ∧ k.name = keyName with
  | none => nonExistingCertificate
  | some c => c.name

/-! ## Deletion -/

def deleteCertificate (certificateName : Name) (db : Db) : Db :=
  { db with certificates := db.certificates.deleteWhere fun c => c.name = certificateName }

/-- Deletes keys, with the certificates that refer to them. -/
def deleteKeysWhere (p : DefaultTable.Row ℕ Name PublicKey → Bool) (db : Db) : Db :=
  { db with
    keys := db.keys.deleteWhere p
    certificates := db.certificates.deleteWhere fun c => ∃ k ∈ db.keys, p k ∧ k.id = c.scope }

def deleteKey (keyName : Name) (db : Db) : Db := deleteKeysWhere (fun k => k.name = keyName) db

/-- Deletes an identity, with the keys that refer to it. -/
def deleteIdentity (identity : Name) (db : Db) : Db :=
  { deleteKeysWhere (fun k => ∃ i ∈ db.identities, i.name = identity ∧ i.id = k.scope) db with
    identities := db.identities.deleteWhere fun i => i.name = identity }

end Db

end NdnTools.Pib
