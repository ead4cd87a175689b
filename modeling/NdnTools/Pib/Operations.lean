/-
Any sequence of operations on the PIB database. Every state keeps the integrity; a row that comes into
a scope without a default becomes its default; and setting a default moves one flag.
-/
import NdnTools.Lib.Run
import NdnTools.Pib.Integrity

namespace NdnTools.Pib

open DefaultTable (NewDefault DefaultSet)

variable [Certificates]

/-- A call of an operation that writes the tables. -/
inductive Operation
  | addIdentity (identity : Name)
  | deleteIdentity (identity : Name)
  | setDefaultIdentity (identity : Name)
  | addKey (keyName : Name) (key : PublicKey)
  | deleteKey (keyName : Name)
  | setDefaultKeyNameOfIdentity (keyName : Name)
  | addCertificate (certificate : IdentityCertificate)
  | deleteCertificate (certificateName : Name)
  | setDefaultCertNameOfKey (certificateName : Name)

def Operation.apply (db : Db) : Operation → Db
  | addIdentity identity => db.addIdentity identity
  | deleteIdentity identity => db.deleteIdentity identity
  | setDefaultIdentity identity => db.setDefaultIdentity identity
  | addKey keyName key => db.addKey keyName key
  | deleteKey keyName => db.deleteKey keyName
  | setDefaultKeyNameOfIdentity keyName => db.setDefaultKeyNameOfIdentity keyName
  | addCertificate certificate => db.addCertificate certificate
  | deleteCertificate certificateName => db.deleteCertificate certificateName
  | setDefaultCertNameOfKey certificateName => db.setDefaultCertNameOfKey certificateName

/-- The database under any operations. -/
def pibDb : Machine Db Operation where
  enabled _ _ := True
  step := Operation.apply

variable {db : Db}

/-! ## The integrity -/

theorem integrity_apply (h : db.Integrity) (o : Operation) : (o.apply db).Integrity := by
  cases o with
  | addIdentity identity => exact Db.integrity_addIdentity h identity
  | deleteIdentity identity => exact Db.integrity_deleteIdentity h identity
  | setDefaultIdentity identity => exact Db.integrity_setDefaultIdentity h identity
  | addKey keyName key => exact Db.integrity_addKey h keyName key
  | deleteKey keyName => exact Db.integrity_deleteKey h keyName
  | setDefaultKeyNameOfIdentity keyName => exact Db.integrity_setDefaultKey h keyName
  | addCertificate certificate => exact Db.integrity_addCertificate h certificate
  | deleteCertificate certificateName => exact Db.integrity_deleteCertificate h certificateName
  | setDefaultCertNameOfKey certificateName => exact Db.integrity_setDefaultCert h certificateName

@[simp] theorem apply_mgmt (o : Operation) : (o.apply db).mgmt = db.mgmt := by
  cases o with
  | addKey keyName key => exact Db.addKey_mgmt
  | addCertificate certificate => exact Db.addCertificate_mgmt
  | _ => rfl

/-! ## The defaults -/

/-- In each table, a row that comes into a scope without a default is its default. -/
structure NewDefaults (db db' : Db) : Prop where
  identities : NewDefault db.identities db'.identities
  keys : NewDefault db.keys db'.keys
  certificates : NewDefault db.certificates db'.certificates

/-- Setting a default writes one table, and there only flags. -/
def SetsOnly (o : Operation) (db db' : Db) : Prop :=
  match o with
  | .setDefaultIdentity n =>
    DefaultSet n db.identities db'.identities ∧ db' = { db with identities := db'.identities }
  | .setDefaultKeyNameOfIdentity n => DefaultSet n db.keys db'.keys ∧ db' = { db with keys := db'.keys }
  | .setDefaultCertNameOfKey n =>
    DefaultSet n db.certificates db'.certificates ∧ db' = { db with certificates := db'.certificates }
  | _ => True

theorem newDefaults_refl (db : Db) : NewDefaults db db :=
  ⟨DefaultTable.newDefault_refl _, DefaultTable.newDefault_refl _, DefaultTable.newDefault_refl _⟩

theorem newDefault_ensureIdentity (h : db.Integrity) (n : Name) :
    NewDefault db.identities (db.ensureIdentity n).identities := by
  unfold Db.ensureIdentity
  split
  · exact DefaultTable.newDefault_refl _
  · exact DefaultTable.newDefault_insertRow h.identities

/-- The identity that is added for a key and the key itself. -/
theorem newDefaults_addKey (h : db.Integrity) (n : Name) (key : PublicKey) : NewDefaults db (db.addKey n key) := by
  unfold Db.addKey
  split
  · exact newDefaults_refl db
  · refine ⟨?_, ?_, ?_⟩
    · rw [Db.insertKey_identities]
      exact newDefault_ensureIdentity h _
    · unfold Db.insertKey
      split
      · rw [Db.ensureIdentity_keys]
        exact DefaultTable.newDefault_refl _
      · rw [Db.ensureIdentity_keys]
        exact DefaultTable.newDefault_insertRow h.keys
    · rw [Db.insertKey_certificates, Db.ensureIdentity_certificates]
      exact DefaultTable.newDefault_refl _

theorem newDefaults_ensureKey (h : db.Integrity) (n : Name) (key : PublicKey) :
    NewDefaults db (db.ensureKey n key) := by
  unfold Db.ensureKey
  split
  · exact newDefaults_refl db
  · exact newDefaults_addKey h n key

/-- The identity and the key that are added for a certificate and the certificate itself. -/
theorem newDefaults_addCertificate (h : db.Integrity) (cert : IdentityCertificate) :
    NewDefaults db (db.addCertificate cert) := by
  have hkey := newDefaults_ensureKey h cert.publicKeyName cert.publicKeyInfo
  unfold Db.addCertificate
  refine ⟨?_, ?_, ?_⟩
  · rw [Db.insertCertificate_identities]
    exact hkey.identities
  · rw [Db.insertCertificate_keys]
    exact hkey.keys
  · unfold Db.insertCertificate
    split
    · exact hkey.certificates
    · rw [Db.ensureKey_certificates]
      exact DefaultTable.newDefault_insertRow h.certificates

theorem newDefaults_deleteKeysWhere (db : Db) (p : DefaultTable.Row ℕ Name PublicKey → Bool) :
    NewDefaults db (db.deleteKeysWhere p) :=
  ⟨DefaultTable.newDefault_refl _, DefaultTable.newDefault_deleteWhere _, DefaultTable.newDefault_deleteWhere _⟩

theorem newDefaults_apply (h : db.Integrity) (o : Operation) : NewDefaults db (o.apply db) := by
  cases o with
  | addIdentity identity =>
    exact { newDefaults_refl db with identities := DefaultTable.newDefault_insertRow h.identities }
  | deleteIdentity identity =>
    have hkeys := newDefaults_deleteKeysWhere db
      fun k => decide (∃ i ∈ db.identities, i.name = identity ∧ i.id = k.scope)
    exact { hkeys with identities := DefaultTable.newDefault_deleteWhere _ }
  | setDefaultIdentity identity =>
    exact { newDefaults_refl db with identities := DefaultTable.newDefault_setDefault h.identities identity }
  | addKey keyName key => exact newDefaults_addKey h keyName key
  | deleteKey keyName => exact newDefaults_deleteKeysWhere db _
  | setDefaultKeyNameOfIdentity keyName =>
    exact { newDefaults_refl db with keys := DefaultTable.newDefault_setDefault h.keys keyName }
  | addCertificate certificate => exact newDefaults_addCertificate h certificate
  | deleteCertificate certificateName =>
    exact { newDefaults_refl db with certificates := DefaultTable.newDefault_deleteWhere _ }
  | setDefaultCertNameOfKey certificateName =>
    exact { newDefaults_refl db with
      certificates := DefaultTable.newDefault_setDefault h.certificates certificateName }

theorem setsOnly_apply (h : db.Integrity) (o : Operation) : SetsOnly o db (o.apply db) := by
  cases o with
  | setDefaultIdentity identity => exact ⟨DefaultTable.defaultSet_setDefault h.identities identity, rfl⟩
  | setDefaultKeyNameOfIdentity keyName => exact ⟨DefaultTable.defaultSet_setDefault h.keys keyName, rfl⟩
  | setDefaultCertNameOfKey certificateName =>
    exact ⟨DefaultTable.defaultSet_setDefault h.certificates certificateName, rfl⟩
  | _ => exact trivial

/-! ## Runs -/

/-- In every run from a new database, with a management certificate or without, the integrity holds in every
state, and every operation treats the defaults as it should. -/
theorem always_integrity_apply (m : Option Mgmt) (os : List Operation) :
    pibDb.Always Db.Integrity { Db.empty with mgmt := m } os ∧
      pibDb.Each (fun db o => NewDefaults db (o.apply db) ∧ SetsOnly o db (o.apply db))
        { Db.empty with mgmt := m } os := by
  have hruns : pibDb.Runs { Db.empty with mgmt := m } os := Machine.runs_of_enabled (fun _ _ => trivial) _ _
  have halways : pibDb.Always Db.Integrity { Db.empty with mgmt := m } os :=
    Machine.always_of_step (fun _ o h _ => integrity_apply h o) (Db.integrity_withMgmt Db.integrity_empty m) hruns
  exact ⟨halways, Machine.each_of_always (fun _ o h _ _ => ⟨newDefaults_apply h o, setsOnly_apply h o⟩) hruns halways⟩

end NdnTools.Pib
