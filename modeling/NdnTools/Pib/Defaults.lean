/-
What an update command does to the database after the checks: it adds its target and sets the defaults
that are asked for. Each part keeps the integrity, changes rows of the target's identity only (setting
the user's default also takes the flag from another identity), and leaves the database as it is when
there is nothing to do. And so every command keeps the integrity.
-/
import NdnTools.Pib.Footprint
import NdnTools.Pib.Commands

namespace NdnTools.Pib

open UpdateQueryProcessor (setKeyDefault setIdDefault setUserDefault)

variable [Certificates] {db db' : Db} {defaultOpt : UInt32} {n keyName signer : Name}
  {key : PublicKey} {cert : IdentityCertificate}

/-! ## What is added -/

theorem hasIdentity_addIdentity (h : db.Integrity) (n : Name) : (db.addIdentity n).hasIdentity n :=
  DefaultTable.has_insertRow h.identities

theorem hasIdentity_ensureIdentity (h : db.Integrity) (n : Name) : (db.ensureIdentity n).hasIdentity n := by
  unfold Db.ensureIdentity
  split
  · assumption
  · exact hasIdentity_addIdentity h n

theorem hasKey_insertKey (h : db.Integrity) (hi : db.hasIdentity (getPrefix keyName)) (key : PublicKey) :
    (db.insertKey keyName key).hasKey keyName := by
  obtain ⟨i, hi, hin⟩ := hi
  have hid := h.identityId hi
  unfold Db.insertKey
  rw [← hin, hid]
  exact DefaultTable.has_insertRow h.keys

theorem hasKey_addKey (h : db.Integrity) (hne : keyName ≠ []) (key : PublicKey) :
    (db.addKey keyName key).hasKey keyName := by
  unfold Db.addKey
  rw [if_neg hne]
  exact hasKey_insertKey (Db.integrity_ensureIdentity h _) (hasIdentity_ensureIdentity h _) key

theorem hasKey_ensureKey (h : db.Integrity) (hne : keyName ≠ []) (key : PublicKey) :
    (db.ensureKey keyName key).hasKey keyName := by
  unfold Db.ensureKey
  split
  · assumption
  · exact hasKey_addKey h hne key

theorem hasCertificate_insertCertificate (h : db.Integrity) (hk : db.hasKey cert.publicKeyName) :
    (db.insertCertificate cert).hasCertificate cert.name := by
  obtain ⟨k, hk, hkn⟩ := hk
  have hid := h.keyId hk
  unfold Db.insertCertificate
  rw [← hkn, hid]
  exact DefaultTable.has_insertRow h.certificates

theorem hasCertificate_addCertificate (h : db.Integrity) (hne : cert.publicKeyName ≠ []) :
    (db.addCertificate cert).hasCertificate cert.name :=
  hasCertificate_insertCertificate (Db.integrity_ensureKey h _ _) (hasKey_ensureKey h hne _)

namespace Db

/-- No key is named by the empty name. -/
theorem Integrity.not_hasKey_nil (h : db.Integrity) : ¬ db.hasKey [] := by
  rintro ⟨k, hk, hn⟩
  exact (h.keyOf k hk).1 hn

theorem Integrity.hasIdentity_of_hasKey (h : db.Integrity) (hk : db.hasKey keyName) :
    db.hasIdentity (getPrefix keyName) := by
  obtain ⟨k, hk, rfl⟩ := hk
  obtain ⟨-, i, hi, -, hin⟩ := h.keyOf k hk
  exact ⟨i, hi, hin⟩

theorem Integrity.hasKey_of_hasCertificate (h : db.Integrity) (hc : db.hasCertificate cert.name) :
    db.hasKey cert.publicKeyName := by
  obtain ⟨c, hc, hcn⟩ := hc
  obtain ⟨-, k, hk, -, hkn⟩ := h.certOf c hc
  exact ⟨k, hk, hkn.trans (h.publicKeyName_of_name hc hcn)⟩

/-- A certificate with a key name is added with its key. -/
theorem hasKey_addCertificate (h : db.Integrity) (hne : cert.publicKeyName ≠ []) :
    (db.addCertificate cert).hasKey cert.publicKeyName :=
  (integrity_addCertificate h cert).hasKey_of_hasCertificate (hasCertificate_addCertificate h hne)

/-- Nothing is added twice. -/
theorem addKey_of_hasKey (h : db.Integrity) (hk : db.hasKey keyName) (key : PublicKey) :
    db.addKey keyName key = db := by
  unfold addKey
  split
  · rfl
  · unfold ensureIdentity
    rw [if_pos (h.hasIdentity_of_hasKey hk)]
    unfold insertKey
    split
    · rfl
    · rw [DefaultTable.insertRow_of_has hk]

theorem addCertificate_of_hasCertificate (h : db.Integrity) (hc : db.hasCertificate cert.name) :
    db.addCertificate cert = db := by
  unfold addCertificate ensureKey
  rw [if_pos (h.hasKey_of_hasCertificate hc)]
  unfold insertCertificate
  split
  · rfl
  · rw [DefaultTable.insertRow_of_has hc]

/-- A certificate without a key name is not added. -/
theorem addCertificate_of_nil (h : db.Integrity) (hn : cert.publicKeyName = []) : db.addCertificate cert = db := by
  have hk : db.ensureKey cert.publicKeyName cert.publicKeyInfo = db := by
    unfold ensureKey addKey
    rw [hn, if_neg h.not_hasKey_nil, if_pos rfl]
  unfold addCertificate
  rw [hk]
  unfold insertCertificate
  split
  · rfl
  · rename_i id hid
    obtain ⟨k, hk, -, hkn⟩ := keyId_eq_some hid
    exact absurd ⟨k, hk, hkn.trans hn⟩ h.not_hasKey_nil

end Db

/-! ## The default certificate of a key -/

theorem integrity_setKeyDefault (h : db.Integrity) (defaultOpt : UInt32) (n : Name) :
    (setKeyDefault defaultOpt n db).Integrity := by
  unfold setKeyDefault
  split
  · exact Db.integrity_setDefaultCert h n
  · exact h

theorem footprint_setKeyDefault (h : db.Integrity) (defaultOpt : UInt32) (cert : IdentityCertificate) :
    Footprint (· = getPrefix cert.publicKeyName) db (setKeyDefault defaultOpt cert.name db) := by
  unfold setKeyDefault
  split
  · exact Db.footprint_setDefaultCert h cert
  · exact .refl _ _

theorem setKeyDefault_eq_self (h : db.Integrity)
    (hd : setsKeyDefault defaultOpt = true → db.certificates.IsDefault n) :
    setKeyDefault defaultOpt n db = db := by
  unfold setKeyDefault
  split
  · rename_i hset
    unfold Db.setDefaultCertNameOfKey
    rw [DefaultTable.setDefault_eq_self h.certificates (hd hset)]
  · rfl

theorem isDefault_setKeyDefault (h : db.Integrity) (hset : setsKeyDefault defaultOpt = true) :
    (setKeyDefault defaultOpt n db).certificates.IsDefault n := by
  unfold setKeyDefault
  rw [if_pos hset]
  exact DefaultTable.isDefault_setDefault h.certificates n

theorem hasCertificate_setKeyDefault (h : db.Integrity) {m : Name} :
    (setKeyDefault defaultOpt n db).hasCertificate m ↔ db.hasCertificate m := by
  unfold setKeyDefault
  split
  · exact DefaultTable.has_setDefault h.certificates n
  · exact Iff.rfl

@[simp] theorem setKeyDefault_identities : (setKeyDefault defaultOpt n db).identities = db.identities := by
  unfold setKeyDefault; split <;> rfl

@[simp] theorem setKeyDefault_keys : (setKeyDefault defaultOpt n db).keys = db.keys := by
  unfold setKeyDefault; split <;> rfl

@[simp] theorem setKeyDefault_mgmt : (setKeyDefault defaultOpt n db).mgmt = db.mgmt := by
  unfold setKeyDefault; split <;> rfl

theorem hasKey_setKeyDefault {m : Name} : (setKeyDefault defaultOpt n db).hasKey m ↔ db.hasKey m := by
  unfold Db.hasKey
  rw [setKeyDefault_keys]

/-! ## The default key of an identity -/

theorem integrity_setIdDefault (h : db.Integrity) (defaultOpt : UInt32) (n : Name) :
    (setIdDefault defaultOpt n db).Integrity := by
  unfold setIdDefault
  split
  · exact Db.integrity_setDefaultKey h n
  · exact h

theorem footprint_setIdDefault (h : db.Integrity) (defaultOpt : UInt32) (n : Name) :
    Footprint (· = getPrefix n) db (setIdDefault defaultOpt n db) := by
  unfold setIdDefault
  split
  · exact Db.footprint_setDefaultKey h n
  · exact .refl _ _

theorem setIdDefault_eq_self (h : db.Integrity) (hd : setsIdDefault defaultOpt = true → db.keys.IsDefault n) :
    setIdDefault defaultOpt n db = db := by
  unfold setIdDefault
  split
  · rename_i hset
    unfold Db.setDefaultKeyNameOfIdentity
    rw [DefaultTable.setDefault_eq_self h.keys (hd hset)]
  · rfl

theorem isDefault_setIdDefault (h : db.Integrity) (hset : setsIdDefault defaultOpt = true) :
    (setIdDefault defaultOpt n db).keys.IsDefault n := by
  unfold setIdDefault
  rw [if_pos hset]
  exact DefaultTable.isDefault_setDefault h.keys n

theorem hasKey_setIdDefault (h : db.Integrity) {m : Name} :
    (setIdDefault defaultOpt n db).hasKey m ↔ db.hasKey m := by
  unfold setIdDefault
  split
  · exact DefaultTable.has_setDefault h.keys n
  · exact Iff.rfl

@[simp] theorem setIdDefault_identities : (setIdDefault defaultOpt n db).identities = db.identities := by
  unfold setIdDefault; split <;> rfl

@[simp] theorem setIdDefault_mgmt : (setIdDefault defaultOpt n db).mgmt = db.mgmt := by
  unfold setIdDefault; split <;> rfl

@[simp] theorem setIdDefault_certificates : (setIdDefault defaultOpt n db).certificates = db.certificates := by
  unfold setIdDefault; split <;> rfl

/-! ## The default identity of the user -/

theorem integrity_setUserDefault (h : db.Integrity) (defaultOpt : UInt32) (n : Name) :
    (setUserDefault defaultOpt n db).Integrity := by
  unfold setUserDefault
  split
  · exact Db.integrity_setDefaultIdentity h _
  · exact h

theorem setUserDefault_eq_self (h : db.Integrity)
    (hd : setsUserDefault defaultOpt = true → db.identities.IsDefault n) :
    setUserDefault defaultOpt n db = db := by
  unfold setUserDefault
  split
  · rename_i hset
    unfold Db.setDefaultIdentity
    rw [DefaultTable.setDefault_eq_self h.identities (hd hset)]
  · rfl

theorem isDefault_setUserDefault (h : db.Integrity) (hset : setsUserDefault defaultOpt = true) :
    (setUserDefault defaultOpt n db).identities.IsDefault n := by
  unfold setUserDefault
  rw [if_pos hset]
  exact DefaultTable.isDefault_setDefault h.identities n

@[simp] theorem setUserDefault_keys : (setUserDefault defaultOpt n db).keys = db.keys := by
  unfold setUserDefault; split <;> rfl

@[simp] theorem setUserDefault_certificates : (setUserDefault defaultOpt n db).certificates = db.certificates := by
  unfold setUserDefault; split <;> rfl

@[simp] theorem setUserDefault_mgmt : (setUserDefault defaultOpt n db).mgmt = db.mgmt := by
  unfold setUserDefault; split <;> rfl

/-! ## Whole commands -/

/-- What an update of a key does. -/
def updateKey (keyName : Name) (bits : PublicKey) (defaultOpt : UInt32) (db : Db) : Db :=
  setUserDefault defaultOpt (getPrefix keyName) (setIdDefault defaultOpt keyName (db.addKey keyName bits))

/-- What an update of a certificate does. -/
def updateCert (cert : IdentityCertificate) (defaultOpt : UInt32) (db : Db) : Db :=
  setUserDefault defaultOpt (getPrefix cert.publicKeyName)
    (setIdDefault defaultOpt cert.publicKeyName (setKeyDefault defaultOpt cert.name (db.addCertificate cert)))

theorem integrity_updateKey (h : db.Integrity) : (updateKey keyName key defaultOpt db).Integrity := by
  have h₁ := Db.integrity_addKey h keyName key
  exact integrity_setUserDefault (integrity_setIdDefault h₁ defaultOpt keyName) defaultOpt _

theorem integrity_updateCert (h : db.Integrity) : (updateCert cert defaultOpt db).Integrity := by
  have h₁ := Db.integrity_addCertificate h cert
  have h₂ := integrity_setKeyDefault h₁ defaultOpt cert.name
  exact integrity_setUserDefault (integrity_setIdDefault h₂ defaultOpt cert.publicKeyName) defaultOpt _

/-- The key of an update is stored, unless it has no name. -/
theorem hasKey_updateKey (h : db.Integrity) (hne : keyName ≠ []) :
    (updateKey keyName key defaultOpt db).hasKey keyName := by
  have h₁ := Db.integrity_addKey h keyName key
  unfold updateKey Db.hasKey
  rw [setUserDefault_keys]
  exact (hasKey_setIdDefault h₁).2 (hasKey_addKey h hne key)

theorem hasKey_updateCert (h : db.Integrity) (hne : cert.publicKeyName ≠ []) :
    (updateCert cert defaultOpt db).hasKey cert.publicKeyName := by
  have h₁ := Db.integrity_addCertificate h cert
  have h₂ := integrity_setKeyDefault h₁ defaultOpt cert.name
  unfold updateCert Db.hasKey
  rw [setUserDefault_keys]
  exact (hasKey_setIdDefault h₂).2 (hasKey_setKeyDefault.2 (Db.hasKey_addCertificate h hne))

/-- And the default of its identity, if that is asked for. -/
theorem isDefault_updateKey (h : db.Integrity) (hset : setsIdDefault defaultOpt = true) :
    (updateKey keyName key defaultOpt db).keys.IsDefault keyName := by
  unfold updateKey
  rw [setUserDefault_keys]
  exact isDefault_setIdDefault (Db.integrity_addKey h keyName key) hset

theorem isDefault_updateCert (h : db.Integrity) (hset : setsIdDefault defaultOpt = true) :
    (updateCert cert defaultOpt db).keys.IsDefault cert.publicKeyName := by
  have h₁ := Db.integrity_addCertificate h cert
  unfold updateCert
  rw [setUserDefault_keys]
  exact isDefault_setIdDefault (integrity_setKeyDefault h₁ defaultOpt cert.name) hset

/-- An update of the user writes nothing, or the management certificate for a signer whose key belongs to the
identity of the management key. -/
theorem updateUser_spec {mgmtCert : IdentityCertificate} {reply : PibError}
    (hok : answer db (UpdateQueryProcessor.processUpdateUserQuery db mgmtCert signer) = some (db', reply)) :
    db' = db ∨ (db.updateMgmtCertificate mgmtCert = .ok db' ∧ ∃ mgmt key, db.getMgmtCertificate = some mgmt ∧
      certificateNameToPublicKeyName signer = .ok key ∧ getPrefix mgmt.publicKeyName = getPrefix key) := by
  rcases answer_cases hok with h | rfl
  · unfold UpdateQueryProcessor.processUpdateUserQuery at h
    simp only [bind, Except.bind, mgmtCertificate, toPublicKeyName] at h
    cases hm : db.getMgmtCertificate with
    | none => simp [hm] at h
    | some mgmt =>
      cases hk : certificateNameToPublicKeyName signer with
      | error what => simp [hm, hk] at h
      | ok key =>
        simp only [hm, hk] at h
        split at h
        · rename_i heq
          split at h
          · cases h
          · rename_i hupdate
            cases h
            exact .inr ⟨hupdate, mgmt, key, rfl, rfl, heq.2⟩
        · cases h
          exact .inl rfl
  · exact .inl rfl

theorem updateUser_cases {mgmtCert : IdentityCertificate} {reply : PibError}
    (hok : answer db (UpdateQueryProcessor.processUpdateUserQuery db mgmtCert signer) = some (db', reply)) :
    db' = db ∨ db.updateMgmtCertificate mgmtCert = .ok db' :=
  (updateUser_spec hok).imp_right And.left

theorem integrity_update (h : db.Integrity) {param : UpdateParam} {reply : PibError}
    (hok : UpdateQueryProcessor.process db param signer = some (db', reply)) : db'.Integrity := by
  obtain ⟨entity, defaultOpt⟩ := param
  cases entity with
  | user mgmtCert =>
    rcases updateUser_cases hok with rfl | hm
    · exact h
    · exact Db.integrity_updateMgmtCertificate h hm
  | identity identity =>
    rcases carryOut_cases hok with rfl | rfl
    · exact h
    · exact integrity_setUserDefault (Db.integrity_addIdentity h identity) defaultOpt identity
  | publicKey keyName key =>
    rcases carryOut_cases hok with rfl | rfl
    · exact h
    · exact integrity_updateKey h
  | certificate cert =>
    rcases carryOut_cases hok with rfl | rfl
    · exact h
    · exact integrity_updateCert h

/-- What a deletion can do. -/
theorem delete_cases {param : DeleteParam} {reply : PibError}
    (hok : DeleteQueryProcessor.process db param signer = some (db', reply)) :
    db' = db ∨ db' = db.deleteIdentity param.targetName ∨ db' = db.deleteKey param.targetName ∨
      db' = db.deleteCertificate param.targetName := by
  unfold DeleteQueryProcessor.process at hok
  split at hok
  · cases hok
    exact .inl rfl
  · exact (carryOut_cases hok).imp_right .inl
  · exact (carryOut_cases hok).imp_right fun hdb' => .inr (.inl hdb')
  · exact (carryOut_cases hok).imp_right fun hdb' => .inr (.inr hdb')
  · cases hok
    exact .inl rfl

theorem integrity_delete (h : db.Integrity) {param : DeleteParam} {reply : PibError}
    (hok : DeleteQueryProcessor.process db param signer = some (db', reply)) : db'.Integrity := by
  rcases delete_cases hok with rfl | rfl | rfl | rfl
  · exact h
  · exact Db.integrity_deleteIdentity h param.targetName
  · exact Db.integrity_deleteKey h param.targetName
  · exact Db.integrity_deleteCertificate h param.targetName

/-- A command keeps the integrity, however it is answered. -/
theorem integrity_process (h : db.Integrity) {c : Command} {reply : PibError}
    (hok : c.process db signer = some (db', reply)) :
    db'.Integrity := by
  cases c with
  | update param => exact integrity_update h hok
  | delete param => exact integrity_delete h hok

/-- And so does any sequence of commands. -/
theorem integrity_always (h : db.Integrity) {es : List (Command × Name)} (hr : pibService.Runs db es) :
    pibService.Always Db.Integrity db es := by
  refine Machine.always_of_step (fun db e h he => ?_) h hr
  obtain ⟨reply, hok⟩ := process_of_enabled he
  exact integrity_process h hok

end NdnTools.Pib
