/-
When a command signed with the default key of an identity changes nothing outside the identity's
namespace. The commands check the name of their target, not the identity it belongs to: a key named as
the identity itself belongs to its parent, and dropping `KEY` from the name of a certificate can lead
out of the namespace. And a request to set the user's default identity is refused only in the one
encoding that asks for all defaults.
-/
import NdnTools.Pib.Defaults

namespace NdnTools.Pib

open DefaultTable (Changed IsDefault)
open UpdateQueryProcessor (setKeyDefault setIdDefault setUserDefault)

section
variable [Certificates]

/-- The signer's key is the default key of its identity and not the management key. -/
structure DefaultSigner (db : Db) (signer key : Name) : Prop where
  keyName : certificateNameToPublicKeyName signer = .ok key
  isDefault : ∃ k ∈ db.keys, k.name = key ∧ k.isDefault = true
  notMgmt : ∀ mgmt, db.getMgmtCertificate = some mgmt → signer ≠ getPrefix mgmt.name

variable {db db₂ db' : Db} {signer key identity : Name} {defaultOpt : UInt32}

/-! ## What is allowed -/

/-- The default key of an identity is found. -/
theorem getDefaultKeyName_eq (h : db.Integrity) {k : DefaultTable.Row ℕ Name PublicKey} (hk : k ∈ db.keys)
    (hd : k.isDefault = true) : db.getDefaultKeyNameOfIdentity (getPrefix k.name) = k.name := by
  obtain ⟨-, i, hi, hid, hn⟩ := h.keyOf k hk
  unfold Db.getDefaultKeyNameOfIdentity
  split
  · rename_i hnone
    exact absurd (by simpa using ⟨hd, i, hi, hid, hn⟩) (List.find?_eq_none.1 hnone k hk)
  · rename_i l hsome
    have hl := List.mem_of_find?_eq_some hsome
    obtain ⟨hld, j, hj, hjd, hjn⟩ :
        l.isDefault = true ∧ ∃ j ∈ db.identities, j.id = l.scope ∧ j.name = getPrefix k.name := by
      simpa using List.find?_some hsome
    have hij := h.identities.eq_of_name hi hj (hn.trans hjn.symm)
    rw [h.keys.defaults l hl k hk hld hd (by rw [← hjd, ← hij, hid])]

/-- What a permission tells of the signer: its key is the management key, or the default key of an identity, for
what is named under the identity, or any other key, for its own certificates. -/
theorem isUpdateAllowed_iff {targetType : TargetType} {targetName : Name} :
    UpdateQueryProcessor.isUpdateAllowed db targetType targetName signer defaultOpt = .ok true ↔
      ¬ localhostPib <+: targetName ∧
      ¬ ((defaultOpt = defaultOptId ∧ targetType ≠ .key ∧ targetType ≠ .cert) ∨
        (defaultOpt = defaultOptKey ∧ targetType ≠ .cert)) ∧
      ∃ key mgmt, certificateNameToPublicKeyName signer = .ok key ∧ db.getMgmtCertificate = some mgmt ∧
        (signer = getPrefix mgmt.name ∨
          (db.getDefaultKeyNameOfIdentity (getPrefix key) = key ∧ getPrefix key <+: targetName ∧
            defaultOpt ≠ defaultOptUser) ∨
          (db.getDefaultKeyNameOfIdentity (getPrefix key) ≠ key ∧ targetType = .cert ∧
            certificateNameToPublicKeyName targetName = .ok key ∧
            defaultOpt ≠ defaultOptUser ∧ defaultOpt ≠ defaultOptId)) := by
  unfold UpdateQueryProcessor.isUpdateAllowed
  by_cases hreserved : localhostPib <+: targetName
  · simp [hreserved]
  rw [if_neg hreserved]
  by_cases hopt : (defaultOpt = defaultOptId ∧ targetType ≠ .key ∧ targetType ≠ .cert) ∨
      (defaultOpt = defaultOptKey ∧ targetType ≠ .cert)
  · simp [hopt]
  rw [if_neg hopt]
  simp only [toPublicKeyName, mgmtCertificate, bind, Except.bind, hreserved, hopt, not_false_eq_true, true_and]
  cases hk : certificateNameToPublicKeyName signer with
  | error what => simp
  | ok key =>
    cases hm : db.getMgmtCertificate with
    | none => simp
    | some mgmt =>
      by_cases hs : signer = getPrefix mgmt.name
      · simp [hs]
      by_cases hd : db.getDefaultKeyNameOfIdentity (getPrefix key) = key
      · by_cases hp : getPrefix key <+: targetName <;> simp [hs, hd, hp]
      by_cases ht : targetType = .cert
      · cases hn : certificateNameToPublicKeyName targetName with
        | error what => simp [hs, hd, ht]
        | ok targetKey => by_cases he : targetKey = key <;> simp [hs, hd, ht, he]
      · simp [hs, hd, ht]

theorem isUpdateAllowed_of_defaultSigner (h : db.Integrity) (hs : DefaultSigner db signer key)
    {targetType : TargetType}
    {targetName : Name}
    (hall : UpdateQueryProcessor.isUpdateAllowed db targetType targetName signer defaultOpt = .ok true) :
    getPrefix key <+: targetName := by
  obtain ⟨k, hk, rfl, hd⟩ := hs.isDefault
  obtain ⟨-, -, key', mgmt, hkey, hm, hcase⟩ := isUpdateAllowed_iff.1 hall
  rw [hs.keyName] at hkey
  cases hkey
  -- not the management key, but the default key of its identity
  rcases hcase with hs' | ⟨-, hp, -⟩ | ⟨hno, -⟩
  · exact absurd hs' (hs.notMgmt mgmt hm)
  · exact hp
  · exact absurd (getDefaultKeyName_eq h hk hd) hno

theorem isDeleteAllowed_of_defaultSigner (h : db.Integrity) (hs : DefaultSigner db signer key)
    {targetType : TargetType}
    {targetName : Name} (hall : DeleteQueryProcessor.isDeleteAllowed db targetType targetName signer = .ok true) :
    getPrefix key <+: targetName := by
  obtain ⟨k, hk, rfl, hd⟩ := hs.isDefault
  unfold DeleteQueryProcessor.isDeleteAllowed at hall
  split at hall
  · cases hall
  split at hall
  · cases hall
  simp only [toPublicKeyName, hs.keyName, getDefaultKeyName_eq h hk hd, mgmtCertificate, bind, Except.bind] at hall
  split at hall
  · cases hall
  · rename_i mgmt hm
    split at hm
    · cases hm
    · rename_i mgmt' hm'
      cases hm
      rw [if_neg (hs.notMgmt _ hm'), if_pos True.intro] at hall
      exact of_decide_eq_true (Except.ok.inj hall)

/-! ## When a command stays inside -/

/-- If the user's default is asked for, the identity that loses it is in the namespace of `S`. -/
def KeepsDefault (S : Name) (defaultOpt : UInt32) (db : Db) : Prop :=
  setsUserDefault defaultOpt = true → ∀ i ∈ db.identities, i.isDefault = true → S <+: i.name

/-- The key is there, with every default that is asked for. -/
structure KeyIdle (keyName : Name) (defaultOpt : UInt32) (db : Db) : Prop where
  added : db.hasKey keyName
  idDefault : setsIdDefault defaultOpt = true → db.keys.IsDefault keyName
  userDefault : setsUserDefault defaultOpt = true → db.identities.IsDefault (getPrefix keyName)

/-- The certificate is there, with every default that is asked for. One without a key name is not added. -/
structure CertIdle (cert : IdentityCertificate) (defaultOpt : UInt32) (db : Db) : Prop where
  added : cert.publicKeyName = [] ∨ db.hasCertificate cert.name
  keyDefault : setsKeyDefault defaultOpt = true → db.certificates.IsDefault cert.name
  idDefault : setsIdDefault defaultOpt = true → db.keys.IsDefault cert.publicKeyName
  userDefault : setsUserDefault defaultOpt = true → db.identities.IsDefault (getPrefix cert.publicKeyName)

/-- The target belongs to the namespace of `S`, or nothing is left to do for it. -/
def StaysInside (S : Name) (db : Db) : Command → Prop
  | .update ⟨.user _, _⟩ => True
  | .update ⟨.identity _, defaultOpt⟩ => KeepsDefault S defaultOpt db
  | .update ⟨.publicKey keyName _, defaultOpt⟩ =>
    KeyIdle keyName defaultOpt db ∨ (S <+: getPrefix keyName ∧ KeepsDefault S defaultOpt db)
  | .update ⟨.certificate cert, defaultOpt⟩ =>
    CertIdle cert defaultOpt db ∨ (S <+: getPrefix cert.publicKeyName ∧ KeepsDefault S defaultOpt db)
  | .delete ⟨2, keyName⟩ => db.hasKey keyName → S <+: getPrefix keyName
  | .delete ⟨3, certName⟩ => ∀ c ∈ db.certificates, c.name = certName → S <+: getPrefix c.data.publicKeyName
  | .delete _ => True

/-- Every row the command changes belongs to an identity in the namespace of `S`. -/
def Contained (S : Name) (db db' : Db) : Prop := Footprint (S <+: ·) db db'

variable {S keyName : Name} {bits : PublicKey} {cert : IdentityCertificate}

/-! ## Setting the user's default -/

theorem contained_setUserDefault (h₂ : db₂.Integrity) (hf : Contained S db db₂) (hS : S <+: identity)
    (hkeep : KeepsDefault S defaultOpt db) : Contained S db (setUserDefault defaultOpt identity db₂) := by
  unfold setUserDefault
  split
  · rename_i hset
    refine Footprint.trans hf ((Db.footprint_setDefaultIdentity h₂ identity).mono ?_)
    rintro m (rfl | ⟨i, hi, hd, rfl⟩)
    · exact hS
    · by_cases hi' : i ∈ db.identities
      · exact hkeep hset i hi' hd
      · exact hf.identities i (.inr ⟨hi', hi⟩)
  · exact hf

/-- The identity that has lost the user's default is in the namespace. -/
theorem keepsDefault_of_contained (h₂ : db₂.Integrity) (hhas : db₂.hasIdentity identity) (hS : S <+: identity)
    (hc : Contained S db (setUserDefault defaultOpt identity db₂)) : KeepsDefault S defaultOpt db := by
  intro hset i hi hd
  unfold setUserDefault at hc
  rw [if_pos hset] at hc
  by_contra hno
  obtain ⟨j, hj, hjn⟩ := (DefaultTable.has_setDefault h₂.identities identity).2 hhas
  have hjd := DefaultTable.isDefault_setDefault h₂.identities identity j hj hjn
  -- a default outside of the namespace would still be there, beside the new one
  have hi' : i ∈ (db₂.setDefaultIdentity identity).identities := by
    by_contra hi'
    exact hno (hc.identities i (.inl ⟨hi, hi'⟩))
  have hij := (h₂.identities.setDefault identity).defaults i hi' j hj hd hjd rfl
  exact hno (by rw [hij, hjn]; exact hS)

theorem contained_setUserDefault_iff (h₂ : db₂.Integrity) (hf : Contained S db db₂) (hhas : db₂.hasIdentity identity)
    (hS : S <+: identity) :
    Contained S db (setUserDefault defaultOpt identity db₂) ↔ KeepsDefault S defaultOpt db :=
  ⟨keepsDefault_of_contained h₂ hhas hS, contained_setUserDefault h₂ hf hS⟩

theorem KeepsDefault.of_nil (hS : S = []) : KeepsDefault S defaultOpt db :=
  fun _ _ _ _ => by rw [hS]; exact List.nil_prefix

/-! ## Keys -/

theorem updateKey_of_idle (h : db.Integrity) (hidle : KeyIdle keyName defaultOpt db) :
    updateKey keyName bits defaultOpt db = db := by
  unfold updateKey
  rw [Db.addKey_of_hasKey h hidle.added, setIdDefault_eq_self h hidle.idDefault,
    setUserDefault_eq_self h hidle.userDefault]

/-- Outside of the namespace any trace of the update would show. -/
theorem keyIdle_of_contained (h : db.Integrity) (hne : keyName ≠ []) (hO : ¬ S <+: getPrefix keyName)
    (hc : Contained S db (updateKey keyName bits defaultOpt db)) : KeyIdle keyName defaultOpt db := by
  have h₁ := Db.integrity_addKey h keyName bits
  have h₂ := integrity_setIdDefault h₁ defaultOpt keyName
  refine ⟨hc.hasKey hO ?_, fun hset => hc.isDefault_key hO ?_, fun hset => hc.isDefault_identity hO ?_⟩
  · exact hasKey_updateKey h hne
  · exact isDefault_updateKey h hset
  · exact isDefault_setUserDefault h₂ hset

theorem contained_updateKey_iff (h : db.Integrity) (hS : S <+: keyName) :
    Contained S db (updateKey keyName bits defaultOpt db) ↔
      KeyIdle keyName defaultOpt db ∨ (S <+: getPrefix keyName ∧ KeepsDefault S defaultOpt db) := by
  have h₁ := Db.integrity_addKey h keyName bits
  have h₂ := integrity_setIdDefault h₁ defaultOpt keyName
  have hf : Footprint (· = getPrefix keyName) db (setIdDefault defaultOpt keyName (db.addKey keyName bits)) :=
    (Db.footprint_addKey h keyName bits).trans (footprint_setIdDefault h₁ defaultOpt keyName)
  constructor
  · intro hc
    by_cases hO : S <+: getPrefix keyName
    · refine .inr ⟨hO, ?_⟩
      -- a key without a name is not added, and then `S` is the root
      by_cases hne : keyName = []
      · subst hne
        exact .of_nil (List.prefix_nil.1 hS)
      · have hk : (setIdDefault defaultOpt keyName (db.addKey keyName bits)).hasKey keyName :=
          (hasKey_setIdDefault h₁).2 (hasKey_addKey h hne bits)
        exact keepsDefault_of_contained h₂ (h₂.hasIdentity_of_hasKey hk) hO hc
    · refine .inl (keyIdle_of_contained h (fun hne => hO ?_) hO hc)
      rw [hne] at hS ⊢
      exact hS
  · rintro (hidle | ⟨hO, hkeep⟩)
    · rw [updateKey_of_idle h hidle]
      exact .refl _ _
    · exact contained_setUserDefault h₂ (hf.mono fun _ hm => hm ▸ hO) hO hkeep

/-! ## Certificates -/

theorem updateCert_of_idle (h : db.Integrity) (hidle : CertIdle cert defaultOpt db) :
    updateCert cert defaultOpt db = db := by
  have hadd : db.addCertificate cert = db :=
    hidle.added.elim (Db.addCertificate_of_nil h) (Db.addCertificate_of_hasCertificate h)
  unfold updateCert
  rw [hadd, setKeyDefault_eq_self h hidle.keyDefault, setIdDefault_eq_self h hidle.idDefault,
    setUserDefault_eq_self h hidle.userDefault]

theorem certIdle_of_contained (h : db.Integrity) (hO : ¬ S <+: getPrefix cert.publicKeyName)
    (hc : Contained S db (updateCert cert defaultOpt db)) : CertIdle cert defaultOpt db := by
  have h₁ := Db.integrity_addCertificate h cert
  have h₂ := integrity_setKeyDefault h₁ defaultOpt cert.name
  have h₃ := integrity_setIdDefault h₂ defaultOpt cert.publicKeyName
  have h₄ : (updateCert cert defaultOpt db).Integrity := integrity_setUserDefault h₃ defaultOpt _
  refine ⟨or_iff_not_imp_left.2 fun hne => h₄.hasCertificate_of_footprint hc hO ?_,
    fun hset => h.isDefault_of_footprint hc hO ?_, fun hset => hc.isDefault_key hO ?_,
    fun hset => hc.isDefault_identity hO ?_⟩
  · unfold updateCert Db.hasCertificate
    rw [setUserDefault_certificates, setIdDefault_certificates]
    exact (hasCertificate_setKeyDefault h₁).2 (hasCertificate_addCertificate h hne)
  · unfold updateCert
    rw [setUserDefault_certificates, setIdDefault_certificates]
    exact isDefault_setKeyDefault h₁ hset
  · exact isDefault_updateCert h hset
  · exact isDefault_setUserDefault h₃ hset

theorem contained_updateCert_iff (h : db.Integrity) :
    Contained S db (updateCert cert defaultOpt db) ↔
      CertIdle cert defaultOpt db ∨ (S <+: getPrefix cert.publicKeyName ∧ KeepsDefault S defaultOpt db) := by
  have h₁ := Db.integrity_addCertificate h cert
  have h₂ := integrity_setKeyDefault h₁ defaultOpt cert.name
  have h₃ := integrity_setIdDefault h₂ defaultOpt cert.publicKeyName
  constructor
  · intro hc
    by_cases hO : S <+: getPrefix cert.publicKeyName
    · refine .inr ⟨hO, ?_⟩
      by_cases hne : cert.publicKeyName = []
      · rw [hne] at hO
        exact .of_nil (List.prefix_nil.1 hO)
      · have hk : (setKeyDefault defaultOpt cert.name (db.addCertificate cert)).hasKey cert.publicKeyName :=
          hasKey_setKeyDefault.2 (Db.hasKey_addCertificate h hne)
        exact keepsDefault_of_contained h₃ (h₃.hasIdentity_of_hasKey ((hasKey_setIdDefault h₂).2 hk)) hO hc
    · exact .inl (certIdle_of_contained h hO hc)
  · rintro (hidle | ⟨hO, hkeep⟩)
    · rw [updateCert_of_idle h hidle]
      exact .refl _ _
    · have hf := ((Db.footprint_addCertificate h cert).trans (footprint_setKeyDefault h₁ defaultOpt cert)).trans
        (footprint_setIdDefault h₂ defaultOpt cert.publicKeyName)
      exact contained_setUserDefault h₃ (hf.mono fun _ hm => hm ▸ hO) hO hkeep

/-! ## Deletion -/

theorem contained_deleteIdentity (h : db.Integrity) (hS : S <+: identity) :
    Contained S db (db.deleteIdentity identity) :=
  (Db.footprint_deleteIdentity h identity).mono fun _ hm => hm ▸ hS

theorem contained_deleteKey_iff (h : db.Integrity) :
    Contained S db (db.deleteKey keyName) ↔ (db.hasKey keyName → S <+: getPrefix keyName) := by
  constructor
  · rintro hc ⟨k, hk, rfl⟩
    exact hc.keys k (DefaultTable.changed_deleteWhere.2 ⟨hk, by simp⟩)
  · exact fun hin => (Db.footprint_deleteKey h keyName).mono fun _ ⟨hk, hm⟩ => hm ▸ hin hk

theorem contained_deleteCertificate_iff {certName : Name} :
    Contained S db (db.deleteCertificate certName) ↔
      ∀ c ∈ db.certificates, c.name = certName → S <+: getPrefix c.data.publicKeyName := by
  constructor
  · rintro hc c hmem rfl
    exact hc.certificates c (DefaultTable.changed_deleteWhere.2 ⟨hmem, by simp⟩)
  · refine fun hin => (Db.footprint_deleteCertificate certName).mono ?_
    rintro _ ⟨c, hc, hcn, rfl⟩
    exact hin c hc hcn

/-! ## Commands -/

/-- An update of the user touches none of the tables. -/
theorem contained_updateUser {mgmtCert : IdentityCertificate} {reply : PibError}
    (hok : answer db (UpdateQueryProcessor.processUpdateUserQuery db mgmtCert signer) = some (db', reply)) :
    Contained S db db' := by
  rcases updateUser_cases hok with rfl | hm
  · exact .refl _ _
  · exact Db.footprint_updateMgmtCertificate _ hm

theorem contained_update_iff (h : db.Integrity) (hs : DefaultSigner db signer key)
    {param : UpdateParam} {reply : PibError}
    (hok : UpdateQueryProcessor.process db param signer = some (db', reply)) (hcode : reply.code = .success) :
    Contained (getPrefix key) db db' ↔ StaysInside (getPrefix key) db (.update param) := by
  obtain ⟨entity, defaultOpt⟩ := param
  cases entity with
  | user mgmtCert => exact iff_of_true (contained_updateUser hok) trivial
  | identity identity =>
    obtain ⟨hall, rfl⟩ := carryOut_success hok hcode
    exact contained_setUserDefault_iff (Db.integrity_addIdentity h identity)
      ((Db.footprint_addIdentity h identity).mono fun _ hm => hm ▸ isUpdateAllowed_of_defaultSigner h hs hall)
      (hasIdentity_addIdentity h identity) (isUpdateAllowed_of_defaultSigner h hs hall)
  | publicKey keyName bits =>
    obtain ⟨hall, rfl⟩ := carryOut_success hok hcode
    exact contained_updateKey_iff h (isUpdateAllowed_of_defaultSigner h hs hall)
  | certificate cert =>
    obtain ⟨-, rfl⟩ := carryOut_success hok hcode
    exact contained_updateCert_iff h

theorem contained_delete_iff (h : db.Integrity) (hs : DefaultSigner db signer key)
    {param : DeleteParam} {reply : PibError}
    (hok : DeleteQueryProcessor.process db param signer = some (db', reply)) (hcode : reply.code = .success) :
    Contained (getPrefix key) db db' ↔ StaysInside (getPrefix key) db (.delete param) := by
  obtain ⟨targetType, targetName⟩ := param
  unfold DeleteQueryProcessor.process at hok
  dsimp only at hok
  split at hok
  · cases hok
    cases hcode
  · obtain ⟨hall, rfl⟩ := carryOut_success hok hcode
    exact iff_of_true (contained_deleteIdentity h (isDeleteAllowed_of_defaultSigner h hs hall)) trivial
  · obtain ⟨-, rfl⟩ := carryOut_success hok hcode
    exact contained_deleteKey_iff h
  · obtain ⟨-, rfl⟩ := carryOut_success hok hcode
    exact contained_deleteCertificate_iff
  · cases hok
    cases hcode

/-- A command signed with the default key of an identity changes rows in the namespace of the identity
only, exactly if its target stays inside. -/
theorem contained_iff {c : Command} {reply : PibError} (h : db.Integrity) (hs : DefaultSigner db signer key)
    (hok : c.process db signer = some (db', reply)) (hcode : reply.code = .success) :
    Contained (getPrefix key) db db' ↔ StaysInside (getPrefix key) db c := by
  cases c with
  | update param => exact contained_update_iff h hs hok hcode
  | delete param => exact contained_delete_iff h hs hok hcode

end

/-! ## An example -/

section
local instance : Certificates := .documented

/-- The certificate of the management key of the user `u`. -/
def mgmtCertOfU : IdentityCertificate :=
  ⟨["localhost", "pib", "u", "mgmt", "KEY", "m", "ID-CERT", "1"], ["localhost", "pib", "u", "mgmt", "m"], [48], [],
    by decide +kernel, rfl⟩

/-- The user's default identity is `/a`, and `/b` has the default key `/b/ksk`. -/
def twoIdentities : Db :=
  (Db.addIdentity ["a"] { Db.empty with mgmt := some ⟨"u", mgmtCertOfU⟩ }).addKey ["b", "ksk"] []

theorem integrity_twoIdentities : twoIdentities.Integrity :=
  Db.integrity_addKey (Db.integrity_addIdentity (Db.integrity_withMgmt Db.integrity_empty _) _) _ _

def signerOfB : Name := ["b", "KEY", "ksk", "ID-CERT"]

theorem defaultSigner_twoIdentities : DefaultSigner twoIdentities signerOfB ["b", "ksk"] where
  keyName := by decide +kernel
  isDefault := by decide +kernel
  notMgmt mgmt h := by
    cases h
    decide +kernel

/-- The default key of `/b` may give the sub identity `/b/c` a default key. -/
theorem contained_iff_subIdentity :
    ∃ db', Command.process twoIdentities signerOfB (.update ⟨.publicKey ["b", "c", "k"] [], defaultOptId⟩) =
      some (db', .success) ∧ Contained ["b"] twoIdentities db' := by
  have hok : Command.process twoIdentities signerOfB (.update ⟨.publicKey ["b", "c", "k"] [], defaultOptId⟩) =
      some (updateKey ["b", "c", "k"] [] defaultOptId twoIdentities, .success) := by decide +kernel
  have hkeep : KeepsDefault ["b"] defaultOptId twoIdentities := fun hset => by cases hset
  exact ⟨_, hok, (contained_iff integrity_twoIdentities defaultSigner_twoIdentities hok rfl).2
    (Or.inr ⟨by decide +kernel, hkeep⟩)⟩

/-- With `DefaultOpt` 4 it takes the user's default from the identity `/a`. -/
theorem userDefault_taken :
    twoIdentities.Integrity ∧ DefaultSigner twoIdentities signerOfB ["b", "ksk"] ∧
      ∃ db', Command.process twoIdentities signerOfB (.update ⟨.identity ["b", "c"], 4⟩) = some (db', .success) ∧
        ¬ Contained ["b"] twoIdentities db' :=
  ⟨integrity_twoIdentities, defaultSigner_twoIdentities,
    setUserDefault 4 ["b", "c"] (twoIdentities.addIdentity ["b", "c"]), by decide +kernel, fun hc => by
      have hlost := hc.identities ⟨1, (), ["a"], (), true⟩ (.inl ⟨by decide +kernel, by decide +kernel⟩)
      exact absurd hlost (by decide +kernel)⟩

end

end NdnTools.Pib
