/-
What an update that is answered with success has stored. Whether an insertion took place is not looked
at: a key without a name is not added, and a key or certificate whose name is taken leaves the old one
where it is.
-/
import NdnTools.Pib.Privilege

namespace NdnTools.Pib

open UpdateQueryProcessor (setKeyDefault setIdDefault setUserDefault)

/-- What an insertion leaves is the new value, unless there was another. -/
theorem getD_eq_iff {α : Type*} {old : Option α} {new : α} :
    some (old.getD new) = some new ↔ ∀ a, old = some a → a = new := by
  cases old <;> simp

section
variable [Certificates] {db db' : Db} {defaultOpt : UInt32} {n identity keyName signer : Name}
  {key : PublicKey} {cert : IdentityCertificate}

/-! ## What is found -/

/-- The default certificate of a key is found. -/
theorem getDefaultCertName_eq (h : db.Integrity) (hhas : db.hasCertificate cert.name)
    (hd : db.certificates.IsDefault cert.name) : db.getDefaultCertNameOfKey cert.publicKeyName = cert.name := by
  obtain ⟨c, hc, hcn⟩ := hhas
  have hcd := hd c hc hcn
  obtain ⟨-, k, hk, hid, hkn⟩ := h.certOf c hc
  rw [h.publicKeyName_of_name hc hcn] at hkn
  unfold Db.getDefaultCertNameOfKey
  split
  · rename_i hnone
    exact absurd (by simpa using ⟨hcd, k, hk, hid, hkn⟩) (List.find?_eq_none.1 hnone c hc)
  · rename_i e hsome
    have he := List.mem_of_find?_eq_some hsome
    obtain ⟨hed, l, hl, hld, hln⟩ :
        e.isDefault = true ∧ ∃ l ∈ db.keys, l.id = e.scope ∧ l.name = cert.publicKeyName := by
      simpa using List.find?_some hsome
    have hkl := h.keys.eq_of_name hk hl (hkn.trans hln.symm)
    rw [h.certificates.defaults e he c hc hed hcd (by rw [← hld, ← hkl, hid]), hcn]

theorem getKey_nil (h : db.Integrity) : db.getKey [] = none := by
  unfold Db.getKey
  rw [DefaultTable.row_eq_none h.not_hasKey_nil]
  rfl

/-! ## What an update leaves -/

theorem getKey_setIdDefault (h : db.Integrity) : (setIdDefault defaultOpt n db).getKey keyName = db.getKey keyName := by
  unfold setIdDefault
  split
  · exact DefaultTable.data_setDefault h.keys n
  · rfl

theorem getKey_insertKey (h : db.Integrity) (hi : db.hasIdentity (getPrefix keyName)) :
    (db.insertKey keyName key).getKey keyName = some ((db.getKey keyName).getD key) := by
  obtain ⟨i, hi, hin⟩ := hi
  have hid := h.identityId hi
  unfold Db.insertKey
  rw [← hin, hid]
  exact DefaultTable.data_insertRow h.keys

/-- A key that is there stays as it is. -/
theorem getKey_addKey (h : db.Integrity) (hne : keyName ≠ []) :
    (db.addKey keyName key).getKey keyName = some ((db.getKey keyName).getD key) := by
  unfold Db.addKey
  rw [if_neg hne, getKey_insertKey (Db.integrity_ensureIdentity h _) (hasIdentity_ensureIdentity h _)]
  unfold Db.getKey
  rw [Db.ensureIdentity_keys]

theorem getKey_addCertificate (h : db.Integrity) (hne : cert.publicKeyName ≠ []) :
    (db.addCertificate cert).getKey cert.publicKeyName =
      some ((db.getKey cert.publicKeyName).getD cert.publicKeyInfo) := by
  have hkeys : (db.addCertificate cert).getKey cert.publicKeyName =
      (db.ensureKey cert.publicKeyName cert.publicKeyInfo).getKey cert.publicKeyName := by
    unfold Db.addCertificate Db.getKey
    rw [Db.insertCertificate_keys]
  rw [hkeys]
  unfold Db.ensureKey
  split
  · rename_i hk
    obtain ⟨k, -, hrow, -⟩ := DefaultTable.row_of_has hk
    unfold Db.getKey
    rw [hrow]
    rfl
  · exact getKey_addKey h hne

theorem getCertificate_insertCertificate (h : db.Integrity) (hk : db.hasKey cert.publicKeyName) :
    (db.insertCertificate cert).getCertificate cert.name = some ((db.getCertificate cert.name).getD cert) := by
  obtain ⟨k, hk, hkn⟩ := hk
  have hid := h.keyId hk
  unfold Db.insertCertificate
  rw [← hkn, hid]
  exact DefaultTable.data_insertRow h.certificates

theorem getCertificate_addCertificate (h : db.Integrity) (hne : cert.publicKeyName ≠ []) :
    (db.addCertificate cert).getCertificate cert.name = some ((db.getCertificate cert.name).getD cert) := by
  unfold Db.addCertificate
  rw [getCertificate_insertCertificate (Db.integrity_ensureKey h _ _) (hasKey_ensureKey h hne _)]
  unfold Db.getCertificate
  rw [Db.ensureKey_certificates]

theorem getKey_updateKey (h : db.Integrity) (hne : keyName ≠ []) :
    (updateKey keyName key defaultOpt db).getKey keyName = some ((db.getKey keyName).getD key) := by
  rw [← getKey_addKey h hne, ← getKey_setIdDefault (Db.integrity_addKey h keyName key)]
  unfold updateKey Db.getKey
  rw [setUserDefault_keys]

theorem getKey_updateCert (h : db.Integrity) (hne : cert.publicKeyName ≠ []) :
    (updateCert cert defaultOpt db).getKey cert.publicKeyName =
      some ((db.getKey cert.publicKeyName).getD cert.publicKeyInfo) := by
  have h₁ := Db.integrity_addCertificate h cert
  rw [← getKey_addCertificate h hne]
  have h₂ := integrity_setKeyDefault h₁ defaultOpt cert.name
  have hset : (setIdDefault defaultOpt cert.publicKeyName (setKeyDefault defaultOpt cert.name
      (db.addCertificate cert))).getKey cert.publicKeyName = _ := getKey_setIdDefault h₂
  unfold updateCert
  unfold Db.getKey at hset ⊢
  rw [setUserDefault_keys, hset, setKeyDefault_keys]

theorem getCertificate_updateCert (h : db.Integrity) (hne : cert.publicKeyName ≠ []) :
    (updateCert cert defaultOpt db).getCertificate cert.name = some ((db.getCertificate cert.name).getD cert) := by
  have h₁ := Db.integrity_addCertificate h cert
  rw [← getCertificate_addCertificate h hne]
  unfold updateCert Db.getCertificate
  rw [setUserDefault_certificates, setIdDefault_certificates]
  unfold setKeyDefault
  split
  · exact DefaultTable.data_setDefault h₁.certificates cert.name
  · rfl

/-! ## The submitted object -/

/-- Afterwards the object of an update is found, with every default that was asked for. -/
structure IdentityStored (identity : Name) (defaultOpt : UInt32) (db : Db) : Prop where
  has : db.hasIdentity identity
  userDefault : setsUserDefault defaultOpt = true → db.getDefaultIdentity = identity

structure KeyStored (keyName : Name) (key : PublicKey) (defaultOpt : UInt32) (db : Db) : Prop where
  key : db.getKey keyName = some key
  idDefault : setsIdDefault defaultOpt = true → db.getDefaultKeyNameOfIdentity (getPrefix keyName) = keyName
  userDefault : setsUserDefault defaultOpt = true → db.getDefaultIdentity = getPrefix keyName

structure CertStored (cert : IdentityCertificate) (defaultOpt : UInt32) (db : Db) : Prop where
  certificate : db.getCertificate cert.name = some cert
  keyDefault : setsKeyDefault defaultOpt = true → db.getDefaultCertNameOfKey cert.publicKeyName = cert.name
  key : KeyStored cert.publicKeyName cert.publicKeyInfo defaultOpt db

/-- The object of an update of the user is not in these tables. -/
def Stored (param : UpdateParam) (db : Db) : Prop :=
  match param.entity with
  | .user _ => True
  | .identity identity => IdentityStored identity param.defaultOpt db
  | .publicKey keyName key => KeyStored keyName key param.defaultOpt db
  | .certificate cert => CertStored cert param.defaultOpt db

/-- The key has a name, and no other key has it. -/
def KeyFits (keyName : Name) (key : PublicKey) (db : Db) : Prop :=
  keyName ≠ [] ∧ ∀ stored, db.getKey keyName = some stored → stored = key

/-- Nothing else is stored under the names of the object. -/
def Fits (param : UpdateParam) (db : Db) : Prop :=
  match param.entity with
  | .user _ => True
  | .identity _ => True
  | .publicKey keyName key => KeyFits keyName key db
  | .certificate cert => KeyFits cert.publicKeyName cert.publicKeyInfo db ∧
      ∀ stored, db.getCertificate cert.name = some stored → stored = cert

theorem identityStored_update (h : db.Integrity) :
    IdentityStored identity defaultOpt (setUserDefault defaultOpt identity (db.addIdentity identity)) := by
  have h₁ := Db.integrity_addIdentity h identity
  have hhas : (setUserDefault defaultOpt identity (db.addIdentity identity)).hasIdentity identity := by
    unfold setUserDefault
    split
    · exact (DefaultTable.has_setDefault h₁.identities identity).2 (hasIdentity_addIdentity h identity)
    · exact hasIdentity_addIdentity h identity
  refine ⟨hhas, fun hset => ?_⟩
  obtain ⟨i, hi, rfl⟩ := hhas
  exact getDefaultIdentity_eq (integrity_setUserDefault h₁ _ _) hi (isDefault_setUserDefault h₁ hset i hi rfl)

/-- A stored key has every default that its update set. -/
theorem keyStored_of_getKey (h : db.Integrity) (hget : db.getKey keyName = some key)
    (hid : setsIdDefault defaultOpt = true → db.keys.IsDefault keyName)
    (huser : setsUserDefault defaultOpt = true → db.identities.IsDefault (getPrefix keyName)) :
    KeyStored keyName key defaultOpt db := by
  obtain ⟨k, hk, hkn, -⟩ := h.keys.data_row.1 hget
  refine ⟨hget, fun hset => ?_, fun hset => ?_⟩
  · have hfound := getDefaultKeyName_eq h hk (hid hset k hk hkn)
    rwa [hkn] at hfound
  · obtain ⟨i, hi, hin⟩ := h.hasIdentity_of_hasKey ⟨k, hk, hkn⟩
    rw [← hin]
    exact getDefaultIdentity_eq h hi (huser hset i hi hin)

theorem keyStored_updateKey_iff (h : db.Integrity) :
    KeyStored keyName key defaultOpt (updateKey keyName key defaultOpt db) ↔ KeyFits keyName key db := by
  have h₁ := Db.integrity_addKey h keyName key
  have h₂ := integrity_setIdDefault h₁ defaultOpt keyName
  by_cases hne : keyName = []
  · subst hne
    refine iff_of_false (fun hs => ?_) fun hfits => hfits.1 rfl
    have hkey := hs.key
    rw [getKey_nil (integrity_updateKey h)] at hkey
    cases hkey
  have hget : (updateKey keyName key defaultOpt db).getKey keyName = _ := getKey_updateKey h hne
  constructor
  · intro hs
    exact ⟨hne, getD_eq_iff.1 (hget.symm.trans hs.key)⟩
  · intro hfits
    exact keyStored_of_getKey (integrity_updateKey h) (hget.trans (getD_eq_iff.2 hfits.2))
      (isDefault_updateKey h) (isDefault_setUserDefault h₂)

theorem certStored_updateCert_iff (h : db.Integrity) :
    CertStored cert defaultOpt (updateCert cert defaultOpt db) ↔
      KeyFits cert.publicKeyName cert.publicKeyInfo db ∧
        ∀ stored, db.getCertificate cert.name = some stored → stored = cert := by
  have h₁ := Db.integrity_addCertificate h cert
  have h₂ := integrity_setKeyDefault h₁ defaultOpt cert.name
  have h₃ := integrity_setIdDefault h₂ defaultOpt cert.publicKeyName
  have h₄ : (updateCert cert defaultOpt db).Integrity := integrity_updateCert h
  by_cases hne : cert.publicKeyName = []
  · refine iff_of_false (fun hs => ?_) fun hfits => hfits.1.1 hne
    have hkey := hs.key.key
    rw [hne, getKey_nil h₄] at hkey
    cases hkey
  have hkey : (updateCert cert defaultOpt db).getKey cert.publicKeyName = _ := getKey_updateCert h hne
  have hcert : (updateCert cert defaultOpt db).getCertificate cert.name = _ := getCertificate_updateCert h hne
  constructor
  · intro hs
    exact ⟨⟨hne, getD_eq_iff.1 (hkey.symm.trans hs.key.key)⟩, getD_eq_iff.1 (hcert.symm.trans hs.certificate)⟩
  · rintro ⟨hkeyFits, hcertFits⟩
    have hget := hcert.trans (getD_eq_iff.2 hcertFits)
    obtain ⟨c, hc, hcn, -⟩ := h₄.certificates.data_row.1 hget
    refine ⟨hget, fun hset => getDefaultCertName_eq h₄ ⟨c, hc, hcn⟩ ?_, ?_⟩
    · unfold updateCert
      rw [setUserDefault_certificates, setIdDefault_certificates]
      exact isDefault_setKeyDefault h₁ hset
    · exact keyStored_of_getKey h₄ (hkey.trans (getD_eq_iff.2 hkeyFits.2)) (isDefault_updateCert h)
        (isDefault_setUserDefault h₃)

/-- An update that is answered with success has stored its object exactly if nothing else was stored under the
names of the object. -/
theorem stored_iff {param : UpdateParam} {reply : PibError} (h : db.Integrity)
    (hok : UpdateQueryProcessor.process db param signer = some (db', reply)) (hcode : reply.code = .success) :
    Stored param db' ↔ Fits param db := by
  obtain ⟨entity, defaultOpt⟩ := param
  cases entity with
  | user mgmtCert => exact Iff.rfl
  | identity identity =>
    obtain ⟨-, rfl⟩ := carryOut_success hok hcode
    exact iff_of_true (identityStored_update h) trivial
  | publicKey keyName key =>
    obtain ⟨-, rfl⟩ := carryOut_success hok hcode
    exact keyStored_updateKey_iff h
  | certificate cert =>
    obtain ⟨-, rfl⟩ := carryOut_success hok hcode
    exact certStored_updateCert_iff h

end

/-! ## An example -/

section
local instance : Certificates := .documented

/-- The management key may update the key `/b/ksk`. -/
theorem stored_iff_sameKey :
    ∃ db', UpdateQueryProcessor.process twoIdentities ⟨.publicKey ["b", "ksk"] [], defaultOptUser⟩
        (getPrefix mgmtCertOfU.name) = some (db', .success) ∧
      Stored ⟨.publicKey ["b", "ksk"] [], defaultOptUser⟩ db' := by
  have hok : UpdateQueryProcessor.process twoIdentities ⟨.publicKey ["b", "ksk"] [], defaultOptUser⟩
      (getPrefix mgmtCertOfU.name) =
        some (updateKey ["b", "ksk"] [] defaultOptUser twoIdentities, .success) := by decide +kernel
  exact ⟨_, hok, (stored_iff integrity_twoIdentities hok rfl).2 ⟨by decide, by decide +kernel⟩⟩

/-- But an update of a key with other bits is answered with success and leaves the old ones. -/
theorem otherKey_kept :
    (twoIdentities.addKey ["a", "ksk"] [1]).Integrity ∧
      ∃ db', UpdateQueryProcessor.process (twoIdentities.addKey ["a", "ksk"] [1]) ⟨.publicKey ["a", "ksk"] [2], 0⟩
          (getPrefix mgmtCertOfU.name) = some (db', .success) ∧
        ¬ Stored ⟨.publicKey ["a", "ksk"] [2], 0⟩ db' :=
  ⟨Db.integrity_addKey integrity_twoIdentities _ _,
    updateKey ["a", "ksk"] [2] 0 (twoIdentities.addKey ["a", "ksk"] [1]), by decide +kernel, fun hs =>
      absurd hs.key (by decide +kernel)⟩

end

end NdnTools.Pib
