/-
When an update that is not signed with the management key leaves the defaults alone. The permission
compares `DefaultOpt` with the three values that are documented, the update reads its bits: a value
that has the bit of a default and is not one of the three is granted what it asks for.
-/
import NdnTools.Pib.Containment

namespace NdnTools.Pib

open UpdateQueryProcessor (isUpdateAllowed setKeyDefault setIdDefault setUserDefault)

section
variable [Certificates]

/-! ## The signer -/

/-- The signer's key is not the management key. -/
def NotMgmt (db : Db) (signer : Name) : Prop :=
  ∀ mgmt, db.getMgmtCertificate = some mgmt → signer ≠ getPrefix mgmt.name

instance (db : Db) (signer : Name) : Decidable (NotMgmt db signer) :=
  inferInstanceAs (Decidable (∀ mgmt ∈ db.getMgmtCertificate, signer ≠ getPrefix mgmt.name))

/-- The key is the default key of its identity. -/
def IsDefaultKey (db : Db) (key : Name) : Prop := db.getDefaultKeyNameOfIdentity (getPrefix key) = key

instance (db : Db) (key : Name) : Decidable (IsDefaultKey db key) :=
  inferInstanceAs (Decidable (db.getDefaultKeyNameOfIdentity (getPrefix key) = key))

/-- The signer may add the target: the default key of an identity whatever is named under the identity,
any other key its own certificates. -/
def MaySign (db : Db) (signer : Name) (targetType : TargetType) (targetName : Name) : Prop :=
  ¬ localhostPib <+: targetName ∧ ∃ key, certificateNameToPublicKeyName signer = .ok key ∧
    (IsDefaultKey db key → getPrefix key <+: targetName) ∧
    (¬ IsDefaultKey db key → targetType = .cert ∧ certificateNameToPublicKeyName targetName = .ok key)

/-- The signer's key is not the default key of its identity, which has one. -/
def OtherKey (db : Db) (signer : Name) : Prop :=
  ∃ key, certificateNameToPublicKeyName signer = .ok key ∧ ¬ IsDefaultKey db key ∧
    ∃ k ∈ db.keys, k.isDefault = true ∧ getPrefix k.name = getPrefix key

variable {db db₂ db' : Db} {signer targetName identity keyName n : Name} {targetType : TargetType}
  {defaultOpt : UInt32} {bits : PublicKey} {cert : IdentityCertificate} {reply : PibError}

/-- What a permission tells of the signer and of `DefaultOpt`. -/
theorem maySign_of_isUpdateAllowed (hs : NotMgmt db signer)
    (hall : isUpdateAllowed db targetType targetName signer defaultOpt = .ok true) :
    MaySign db signer targetType targetName ∧ defaultOpt ≠ defaultOptUser ∧
      (OtherKey db signer → defaultOpt ≠ defaultOptId) := by
  obtain ⟨hreserved, -, key, mgmt, hk, hm, hcase⟩ := isUpdateAllowed_iff.1 hall
  rcases hcase with hs' | ⟨hdef, hp, huser⟩ | ⟨hdef, htype, ht, huser, hid⟩
  · exact absurd hs' (hs mgmt hm)
  · refine ⟨⟨hreserved, key, hk, fun _ => hp, fun hno => absurd hdef hno⟩, huser, ?_⟩
    rintro ⟨key', hk', hno, -⟩
    rw [hk] at hk'
    cases hk'
    exact absurd hdef hno
  · exact ⟨⟨hreserved, key, hk, fun hd => absurd hd hdef, fun _ => ⟨htype, ht⟩⟩, huser, fun _ => hid⟩

/-- And the other way round, for what no documented value asks. -/
theorem isUpdateAllowed_of_maySign (hmay : MaySign db signer targetType targetName)
    (huser : defaultOpt ≠ defaultOptUser) (hid : defaultOpt ≠ defaultOptId) (hkey : defaultOpt ≠ defaultOptKey) :
    isUpdateAllowed db targetType targetName signer defaultOpt = .ok true ∨
      isUpdateAllowed db targetType targetName signer defaultOpt = .error .nullPointer := by
  obtain ⟨hreserved, key, hk, hdefault, hother⟩ := hmay
  have hopt : ¬ ((defaultOpt = defaultOptId ∧ targetType ≠ .key ∧ targetType ≠ .cert) ∨
      (defaultOpt = defaultOptKey ∧ targetType ≠ .cert)) := by simp [hid, hkey]
  cases hm : db.getMgmtCertificate with
  | none =>
    refine .inr ?_
    unfold isUpdateAllowed
    rw [if_neg hreserved, if_neg hopt]
    simp only [toPublicKeyName, mgmtCertificate, bind, Except.bind, hk, hm]
  | some mgmt =>
    refine .inl (isUpdateAllowed_iff.2 ⟨hreserved, hopt, key, mgmt, hk, hm, .inr ?_⟩)
    by_cases hdef : IsDefaultKey db key
    · exact .inl ⟨hdef, hdefault hdef, huser⟩
    · obtain ⟨htype, ht⟩ := hother hdef
      exact .inr ⟨hdef, htype, ht, huser, hid⟩

/-! ## The default identity -/

theorem getDefaultIdentity_eq (h : db.Integrity) {i : DefaultTable.Row Unit Name Unit} (hi : i ∈ db.identities)
    (hd : i.isDefault = true) : db.getDefaultIdentity = i.name := by
  unfold Db.getDefaultIdentity
  split
  · rename_i hnone
    exact absurd hd (List.find?_eq_none.1 hnone i hi)
  · rename_i j hsome
    rw [h.identities.defaults j (List.mem_of_find?_eq_some hsome) i hi (List.find?_some hsome) hd rfl]

/-- The identity the user's default is given to has it, if it is stored. -/
theorem getDefaultIdentity_setUserDefault (h : db.Integrity) {i : DefaultTable.Row Unit Name Unit}
    (hi : i ∈ db.identities) (hd : i.isDefault = true) :
    (setUserDefault defaultOpt identity db).getDefaultIdentity =
      if setsUserDefault defaultOpt = true ∧ db.hasIdentity identity then identity else i.name := by
  unfold setUserDefault
  by_cases hset : setsUserDefault defaultOpt = true
  · rw [if_pos hset]
    by_cases hhas : db.hasIdentity identity
    · rw [if_pos ⟨hset, hhas⟩]
      obtain ⟨j, hj, hjn⟩ := (DefaultTable.has_setDefault h.identities identity).2 hhas
      have hjd := DefaultTable.isDefault_setDefault h.identities identity j hj hjn
      rw [getDefaultIdentity_eq (Db.integrity_setDefaultIdentity h identity) hj hjd, hjn]
    · rw [if_neg (not_and_of_not_right _ hhas)]
      unfold Db.setDefaultIdentity
      rw [DefaultTable.setDefault_of_missing hhas]
      exact getDefaultIdentity_eq h hi hd
  · rw [if_neg hset, if_neg (not_and_of_not_left _ hset)]
    exact getDefaultIdentity_eq h hi hd

/-! ## The default keys -/

/-- The default key of an identity is the only one. -/
theorem getDefaultKeyName_of_none (h : db.Integrity)
    (hno : ¬ ∃ k ∈ db.keys, k.isDefault = true ∧ getPrefix k.name = n) :
    db.getDefaultKeyNameOfIdentity n = Db.nonExistingKey := by
  unfold Db.getDefaultKeyNameOfIdentity
  split
  · rfl
  · rename_i k hsome
    have hk := List.mem_of_find?_eq_some hsome
    obtain ⟨hd, i, hi, hid, hin⟩ :
        k.isDefault = true ∧ ∃ i ∈ db.identities, i.id = k.scope ∧ i.name = n := by
      simpa using List.find?_some hsome
    obtain ⟨-, j, hj, hjd, hjn⟩ := h.keyOf k hk
    rw [h.identities.eq_of_id hj hi (hjd.trans hid.symm), hin] at hjn
    exact absurd ⟨k, hk, hd, hjn.symm⟩ hno

/-- The default keys of the identities are told by the rows that have the flag. -/
theorem getDefaultKeyName_congr (h : db.Integrity) (h' : db'.Integrity)
    (hsame : ∀ k, k.isDefault = true → (k ∈ db'.keys ↔ k ∈ db.keys)) (n : Name) :
    db'.getDefaultKeyNameOfIdentity n = db.getDefaultKeyNameOfIdentity n := by
  by_cases hex : ∃ k ∈ db.keys, k.isDefault = true ∧ getPrefix k.name = n
  · obtain ⟨k, hk, hd, rfl⟩ := hex
    rw [getDefaultKeyName_eq h hk hd, getDefaultKeyName_eq h' ((hsame k hd).2 hk) hd]
  · have hex' : ¬ ∃ k ∈ db'.keys, k.isDefault = true ∧ getPrefix k.name = n := by
      rintro ⟨k, hk, hd, hn⟩
      exact hex ⟨k, (hsame k hd).1 hk, hd, hn⟩
    rw [getDefaultKeyName_of_none h hex, getDefaultKeyName_of_none h' hex']

/-! ## What an update leaves alone -/

theorem mem_identities_ensureIdentity (h : db.Integrity) {i : DefaultTable.Row Unit Name Unit}
    (hi : i ∈ db.identities) : i ∈ (db.ensureIdentity n).identities := by
  unfold Db.ensureIdentity
  split
  · exact hi
  · exact DefaultTable.mem_insertRow_of_mem h.identities hi

theorem mem_identities_addKey (h : db.Integrity) {i : DefaultTable.Row Unit Name Unit} (hi : i ∈ db.identities) :
    i ∈ (db.addKey keyName bits).identities := by
  unfold Db.addKey
  split
  · exact hi
  · rw [Db.insertKey_identities]
    exact mem_identities_ensureIdentity h hi

theorem mem_identities_ensureKey (h : db.Integrity) {i : DefaultTable.Row Unit Name Unit} (hi : i ∈ db.identities) :
    i ∈ (db.ensureKey keyName bits).identities := by
  unfold Db.ensureKey
  split
  · exact hi
  · exact mem_identities_addKey h hi

/-- A key added to an identity that has a default key is no default. -/
theorem mem_keys_addKey (h : db.Integrity)
    (hd : ∃ k ∈ db.keys, k.isDefault = true ∧ getPrefix k.name = getPrefix keyName)
    {k : DefaultTable.Row ℕ Name PublicKey} (hkd : k.isDefault = true) :
    k ∈ (db.addKey keyName bits).keys ↔ k ∈ db.keys := by
  obtain ⟨l, hl, hld, hln⟩ := hd
  obtain ⟨-, i, hi, hid, hin⟩ := h.keyOf l hl
  have hhas : db.hasIdentity (getPrefix keyName) := ⟨i, hi, hin.trans hln⟩
  have hscope : db.identityId (getPrefix keyName) = some l.scope := by
    rw [← hln, ← hin, h.identityId hi, hid]
  unfold Db.addKey
  split
  · exact Iff.rfl
  · unfold Db.ensureIdentity Db.insertKey
    rw [if_pos hhas, hscope]
    exact ⟨fun hk => DefaultTable.mem_insertRow_of_default h.keys ⟨l, hl, rfl, hld⟩ hk hkd,
      DefaultTable.mem_insertRow_of_mem h.keys⟩

theorem mem_keys_addCertificate (h : db.Integrity)
    (hd : ∃ k ∈ db.keys, k.isDefault = true ∧ getPrefix k.name = getPrefix cert.publicKeyName)
    {k : DefaultTable.Row ℕ Name PublicKey} (hkd : k.isDefault = true) :
    k ∈ (db.addCertificate cert).keys ↔ k ∈ db.keys := by
  unfold Db.addCertificate
  rw [Db.insertCertificate_keys]
  unfold Db.ensureKey
  split
  · exact Iff.rfl
  · exact mem_keys_addKey h hd hkd

/-! ## When an update takes a default -/

/-- The update gives the user's default to `identity`; `stored` tells that this is stored in the end. -/
def Takes (db : Db) (signer : Name) (defaultOpt : UInt32) (targetType : TargetType) (targetName identity : Name)
    (stored : Prop) : Prop :=
  setsUserDefault defaultOpt = true ∧ defaultOpt ≠ defaultOptUser ∧ MaySign db signer targetType targetName ∧
    stored ∧ db.getDefaultIdentity ≠ identity

/-- The update takes the user's default from the identity that has it. A key without a name is not added, and
its identity is the root. -/
def TakesUserDefault (db : Db) (signer : Name) : UpdateParam → Prop
  | ⟨.user _, _⟩ => False
  | ⟨.identity identity, defaultOpt⟩ => Takes db signer defaultOpt .id identity identity True
  | ⟨.publicKey keyName _, defaultOpt⟩ =>
    Takes db signer defaultOpt .key keyName (getPrefix keyName) (keyName ≠ [] ∨ db.hasIdentity [])
  | ⟨.certificate cert, defaultOpt⟩ =>
    Takes db signer defaultOpt .cert cert.name (getPrefix cert.publicKeyName)
      (cert.publicKeyName ≠ [] ∨ db.hasIdentity [])

/-- The update makes the key of a certificate, which is the signer's, the default key of its identity. -/
def TakesIdDefault (db : Db) (signer : Name) : UpdateParam → Prop
  | ⟨.certificate cert, defaultOpt⟩ =>
    setsIdDefault defaultOpt = true ∧ defaultOpt ≠ defaultOptUser ∧ defaultOpt ≠ defaultOptId ∧
      MaySign db signer .cert cert.name ∧ cert.publicKeyName ≠ []
  | _ => False

/-- A command is carried out if it is allowed; a null pointer ends the program. -/
theorem carryOut_of_maySign {next : Db} (hmay : MaySign db signer targetType targetName)
    (huser : defaultOpt ≠ defaultOptUser) (hid : defaultOpt ≠ defaultOptId) (hkey : defaultOpt ≠ defaultOptKey)
    (hok : answer db (carryOut (isUpdateAllowed db targetType targetName signer defaultOpt) db next) =
      some (db', reply)) : db' = next := by
  rcases isUpdateAllowed_of_maySign hmay huser hid hkey with hall | hall
  · rw [hall] at hok
    cases hok
    rfl
  · rw [hall] at hok
    cases hok

/-! ## The default identity is kept -/

theorem defaultIdentity_carryOut {stored : Prop} {i : DefaultTable.Row Unit Name Unit} (h : db.Integrity)
    (h₂ : db₂.Integrity) (hs : NotMgmt db signer) (hi : i ∈ db.identities) (hd : i.isDefault = true)
    (hi₂ : i ∈ db₂.identities) (hstored : db₂.hasIdentity identity ↔ stored)
    (hok : answer db (carryOut (isUpdateAllowed db targetType targetName signer defaultOpt) db
      (setUserDefault defaultOpt identity db₂)) = some (db', reply)) :
    db'.getDefaultIdentity = db.getDefaultIdentity ↔
      ¬ Takes db signer defaultOpt targetType targetName identity stored := by
  have hold := getDefaultIdentity_eq h hi hd
  have hnew : (setUserDefault defaultOpt identity db₂).getDefaultIdentity =
      if setsUserDefault defaultOpt = true ∧ db₂.hasIdentity identity then identity else i.name :=
    getDefaultIdentity_setUserDefault h₂ hi₂ hd
  constructor
  · rintro heq ⟨hset, huser, hmay, hst, hne⟩
    -- the bit is in none of the other documented values
    have hid : defaultOpt ≠ defaultOptId := fun he => absurd hset (by rw [he]; decide)
    have hkey : defaultOpt ≠ defaultOptKey := fun he => absurd hset (by rw [he]; decide)
    rw [carryOut_of_maySign hmay huser hid hkey hok, hnew, if_pos ⟨hset, hstored.2 hst⟩] at heq
    exact hne heq.symm
  · intro hno
    rcases carryOut_allowed hok with rfl | ⟨hall, rfl⟩
    · rfl
    · obtain ⟨hmay, huser, -⟩ := maySign_of_isUpdateAllowed hs hall
      rw [hnew, hold]
      split
      · rename_i hset
        by_contra hne
        refine hno ⟨hset.1, huser, hmay, hstored.1 hset.2, ?_⟩
        rw [hold]
        exact Ne.symm hne
      · rfl

/-- The identity of a key is stored once the key is added. -/
theorem hasIdentity_addKey_iff (h : db.Integrity) :
    (db.addKey keyName bits).hasIdentity (getPrefix keyName) ↔ keyName ≠ [] ∨ db.hasIdentity [] := by
  by_cases hne : keyName = []
  · -- nothing is added
    subst hne
    constructor
    · intro hhas
      exact .inr hhas
    · rintro (hno | hhas)
      · exact absurd rfl hno
      · exact hhas
  · have hk := hasKey_addKey h hne bits
    exact iff_of_true ((Db.integrity_addKey h keyName bits).hasIdentity_of_hasKey hk) (.inl hne)

theorem hasIdentity_addCertificate_iff (h : db.Integrity) :
    (db.addCertificate cert).hasIdentity (getPrefix cert.publicKeyName) ↔
      cert.publicKeyName ≠ [] ∨ db.hasIdentity [] := by
  by_cases hne : cert.publicKeyName = []
  · rw [Db.addCertificate_of_nil h hne, hne]
    simp [getPrefix]
  · have hk := Db.hasKey_addCertificate h hne
    exact iff_of_true ((Db.integrity_addCertificate h cert).hasIdentity_of_hasKey hk) (.inl hne)

theorem defaultIdentity_update {param : UpdateParam} (h : db.Integrity)
    (hdefault : DefaultTable.HasDefault () db.identities) (hs : NotMgmt db signer)
    (hok : UpdateQueryProcessor.process db param signer = some (db', reply)) :
    db'.getDefaultIdentity = db.getDefaultIdentity ↔ ¬ TakesUserDefault db signer param := by
  obtain ⟨i, hi, -, hd⟩ := hdefault
  obtain ⟨entity, defaultOpt⟩ := param
  cases entity with
  | user mgmtCert =>
    refine iff_of_true ?_ not_false
    rcases updateUser_cases hok with rfl | hm
    · rfl
    · obtain ⟨m, rfl⟩ := Db.updateMgmtCertificate_eq hm
      rfl
  | identity identity =>
    exact defaultIdentity_carryOut h (Db.integrity_addIdentity h identity) hs hi hd
      (DefaultTable.mem_insertRow_of_mem h.identities hi)
      (iff_of_true (hasIdentity_addIdentity h identity) trivial) hok
  | publicKey keyName bits =>
    have h₁ := Db.integrity_addKey h keyName bits
    refine defaultIdentity_carryOut h (integrity_setIdDefault h₁ defaultOpt keyName) hs hi hd ?_ ?_ hok
    · rw [setIdDefault_identities]
      exact mem_identities_addKey h hi
    · unfold Db.hasIdentity
      rw [setIdDefault_identities]
      exact hasIdentity_addKey_iff h
  | certificate cert =>
    have h₁ := Db.integrity_addCertificate h cert
    have h₂ := integrity_setKeyDefault h₁ defaultOpt cert.name
    refine defaultIdentity_carryOut h (integrity_setIdDefault h₂ defaultOpt cert.publicKeyName) hs hi hd ?_ ?_ hok
    · rw [setIdDefault_identities, setKeyDefault_identities]
      unfold Db.addCertificate
      rw [Db.insertCertificate_identities]
      exact mem_identities_ensureKey h hi
    · unfold Db.hasIdentity
      rw [setIdDefault_identities, setKeyDefault_identities]
      exact hasIdentity_addCertificate_iff h

/-! ## The default keys are kept -/

/-- A key that is not the default key of its identity adds nothing but its certificates. -/
theorem cert_of_maySign (hother : OtherKey db signer) (hmay : MaySign db signer targetType targetName) :
    targetType = .cert ∧ ∃ key, certificateNameToPublicKeyName targetName = .ok key ∧ ¬ IsDefaultKey db key ∧
      ∃ k ∈ db.keys, k.isDefault = true ∧ getPrefix k.name = getPrefix key := by
  obtain ⟨key, hk, hno, hd⟩ := hother
  obtain ⟨-, key', hk', -, hcert⟩ := hmay
  rw [hk] at hk'
  cases hk'
  exact ⟨(hcert hno).1, key, (hcert hno).2, hno, hd⟩

/-- The update of a certificate makes its key the default key, if that is asked for. -/
theorem isDefaultKey_updateCert (h : db.Integrity) (hset : setsIdDefault defaultOpt = true)
    (hne : cert.publicKeyName ≠ []) : IsDefaultKey (updateCert cert defaultOpt db) cert.publicKeyName := by
  have hkey : (updateCert cert defaultOpt db).hasKey cert.publicKeyName := hasKey_updateCert h hne
  obtain ⟨k, hk, hkn⟩ := hkey
  have hkd := isDefault_updateCert h hset k hk hkn
  unfold IsDefaultKey
  rw [← hkn]
  exact getDefaultKeyName_eq (integrity_updateCert h) hk hkd

/-- And otherwise the keys are as it has added them. -/
theorem keys_updateCert (h : db.Integrity) (hno : ¬ (setsIdDefault defaultOpt = true ∧ cert.publicKeyName ≠ [])) :
    (updateCert cert defaultOpt db).keys = (db.addCertificate cert).keys := by
  have h₂ := integrity_setKeyDefault (Db.integrity_addCertificate h cert) defaultOpt cert.name
  unfold updateCert setIdDefault
  rw [setUserDefault_keys]
  split
  · rename_i hset
    have hnil : cert.publicKeyName = [] := by
      by_contra hne
      exact hno ⟨hset, hne⟩
    -- no key has the empty name
    unfold Db.setDefaultKeyNameOfIdentity
    rw [hnil]
    exact (DefaultTable.setDefault_of_missing h₂.not_hasKey_nil).trans setKeyDefault_keys
  · exact setKeyDefault_keys

theorem idDefaults_updateCert (h : db.Integrity) (hs : NotMgmt db signer) (hother : OtherKey db signer)
    (hok : answer db (UpdateQueryProcessor.processUpdateCertQuery db cert defaultOpt signer) = some (db', reply)) :
    (∀ n, db'.getDefaultKeyNameOfIdentity n = db.getDefaultKeyNameOfIdentity n) ↔
      ¬ TakesIdDefault db signer ⟨.certificate cert, defaultOpt⟩ := by
  -- the signer's key is the key of the certificate
  have hkey : MaySign db signer .cert cert.name → ¬ IsDefaultKey db cert.publicKeyName ∧
      ∃ k ∈ db.keys, k.isDefault = true ∧ getPrefix k.name = getPrefix cert.publicKeyName := by
    intro hmay
    obtain ⟨-, key, hk, hno, hd⟩ := cert_of_maySign hother hmay
    rw [cert.named] at hk
    cases hk
    exact ⟨hno, hd⟩
  constructor
  · rintro hsame ⟨hset, huser, hid, hmay, hne⟩
    have hopt : defaultOpt ≠ defaultOptKey := fun he => absurd hset (by rw [he]; decide)
    have hdb' : db' = updateCert cert defaultOpt db := carryOut_of_maySign hmay huser hid hopt hok
    subst hdb'
    have hnew : IsDefaultKey (updateCert cert defaultOpt db) cert.publicKeyName := isDefaultKey_updateCert h hset hne
    exact (hkey hmay).1 ((hsame _).symm.trans hnew)
  · intro hno
    rcases carryOut_allowed hok with rfl | ⟨hall, hdb'⟩
    · exact fun n => rfl
    · obtain ⟨hmay, huser, hid⟩ := maySign_of_isUpdateAllowed hs hall
      have hdb' : db' = updateCert cert defaultOpt db := hdb'
      subst hdb'
      have hkeys : (updateCert cert defaultOpt db).keys = (db.addCertificate cert).keys :=
        keys_updateCert h fun ⟨hset, hne⟩ => hno ⟨hset, huser, hid hother, hmay, hne⟩
      refine getDefaultKeyName_congr h (integrity_updateCert h) fun k hkd => ?_
      rw [hkeys]
      exact mem_keys_addCertificate h (hkey hmay).2 hkd

theorem idDefaults_update {param : UpdateParam} (h : db.Integrity) (hs : NotMgmt db signer)
    (hother : OtherKey db signer) (hok : UpdateQueryProcessor.process db param signer = some (db', reply)) :
    (∀ n, db'.getDefaultKeyNameOfIdentity n = db.getDefaultKeyNameOfIdentity n) ↔
      ¬ TakesIdDefault db signer param := by
  obtain ⟨entity, defaultOpt⟩ := param
  cases entity with
  | user mgmtCert =>
    refine iff_of_true (fun n => ?_) not_false
    rcases updateUser_cases hok with rfl | hm
    · rfl
    · obtain ⟨m, rfl⟩ := Db.updateMgmtCertificate_eq hm
      rfl
  | identity identity =>
    refine iff_of_true (fun n => ?_) not_false
    rcases carryOut_allowed hok with rfl | ⟨hall, -⟩
    · rfl
    · cases (cert_of_maySign hother (maySign_of_isUpdateAllowed hs hall).1).1
  | publicKey keyName bits =>
    refine iff_of_true (fun n => ?_) not_false
    rcases carryOut_allowed hok with rfl | ⟨hall, -⟩
    · rfl
    · cases (cert_of_maySign hother (maySign_of_isUpdateAllowed hs hall).1).1
  | certificate cert => exact idDefaults_updateCert h hs hother hok

/-- An update that is not signed with the management key leaves the user's default identity, and one of a key
that is not its identity's default key also the default key of every identity, unless it takes them. -/
theorem defaults_kept_iff {param : UpdateParam} (h : db.Integrity)
    (hdefault : DefaultTable.HasDefault () db.identities) (hs : NotMgmt db signer)
    (hok : UpdateQueryProcessor.process db param signer = some (db', reply)) :
    (db'.getDefaultIdentity = db.getDefaultIdentity ∧
      (OtherKey db signer → ∀ n, db'.getDefaultKeyNameOfIdentity n = db.getDefaultKeyNameOfIdentity n)) ↔
    ¬ TakesUserDefault db signer param ∧ (OtherKey db signer → ¬ TakesIdDefault db signer param) :=
  and_congr (defaultIdentity_update h hdefault hs hok)
    (forall_congr' fun hother => idDefaults_update h hs hother hok)

end

/-! ## An example -/

section
local instance : Certificates := .documented

/-- With `DefaultOpt` 3 the default key of `/b` gives the sub identity `/b/c` a default key and leaves the user's
default. -/
theorem defaults_kept_iff_subIdentity :
    ∃ db', UpdateQueryProcessor.process twoIdentities ⟨.publicKey ["b", "c", "k"] [], defaultOptId⟩ signerOfB =
      some (db', .success) ∧ db'.getDefaultIdentity = twoIdentities.getDefaultIdentity := by
  have hok : UpdateQueryProcessor.process twoIdentities ⟨.publicKey ["b", "c", "k"] [], defaultOptId⟩ signerOfB =
      some (updateKey ["b", "c", "k"] [] defaultOptId twoIdentities, .success) := by decide +kernel
  have hdefault : DefaultTable.HasDefault () twoIdentities.identities := by decide +kernel
  have hother : ¬ OtherKey twoIdentities signerOfB := by
    rintro ⟨key, hk, hno, -⟩
    rw [defaultSigner_twoIdentities.keyName] at hk
    cases hk
    exact hno (by decide +kernel)
  exact ⟨_, hok, ((defaults_kept_iff integrity_twoIdentities hdefault defaultSigner_twoIdentities.notMgmt hok).2
    ⟨fun ht => absurd ht.1 (by decide), fun ho => absurd ho hother⟩).1⟩

/-- `/b` has a second key, `/b/dsk`, that is not its default key. -/
def twoKeys : Db := twoIdentities.addKey ["b", "dsk"] []

theorem integrity_twoKeys : twoKeys.Integrity := Db.integrity_addKey integrity_twoIdentities _ _

def signerOfDsk : Name := ["b", "KEY", "dsk", "ID-CERT"]

def certOfDsk : IdentityCertificate :=
  ⟨["b", "KEY", "dsk", "ID-CERT", "1"], ["b", "dsk"], [48], [], by decide +kernel, rfl⟩

/-- With `DefaultOpt` 4 the default key of `/b` makes `/b/c` the user's default identity instead of `/a`, and with
`DefaultOpt` 2 the other key of `/b` makes itself the default key. -/
theorem defaults_taken :
    twoKeys.Integrity ∧ DefaultTable.HasDefault () twoKeys.identities ∧
      NotMgmt twoKeys signerOfB ∧ NotMgmt twoKeys signerOfDsk ∧ OtherKey twoKeys signerOfDsk ∧
      (∃ db', UpdateQueryProcessor.process twoKeys ⟨.identity ["b", "c"], 4⟩ signerOfB = some (db', .success) ∧
        twoKeys.getDefaultIdentity = ["a"] ∧ db'.getDefaultIdentity = ["b", "c"]) ∧
      ∃ db', UpdateQueryProcessor.process twoKeys ⟨.certificate certOfDsk, 2⟩ signerOfDsk = some (db', .success) ∧
        twoKeys.getDefaultKeyNameOfIdentity ["b"] = ["b", "ksk"] ∧
        db'.getDefaultKeyNameOfIdentity ["b"] = ["b", "dsk"] := by
  exact ⟨integrity_twoKeys, by decide +kernel, by decide +kernel, by decide +kernel,
    ⟨["b", "dsk"], by decide +kernel, by decide +kernel, by decide +kernel⟩,
    ⟨setUserDefault 4 ["b", "c"] (twoKeys.addIdentity ["b", "c"]), by decide +kernel, by decide +kernel,
      by decide +kernel⟩,
    ⟨updateCert certOfDsk 2 twoKeys, by decide +kernel, by decide +kernel, by decide +kernel⟩⟩

end

end NdnTools.Pib
