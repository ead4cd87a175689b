/-
When the reserved namespace `/localhost/pib` stays closed to the commands that the validator lets
through. A command is checked by the name of its target; the name of a certificate may lie outside of
the namespace and that of its key, under which rows are added, inside: `/localhost/KEY/pib/..`. A key
added so is trusted as the management key from then on. In every run the namespace stays closed, and
the management certificate in the hands of its key, exactly if no such certificate is granted.
-/
import NdnTools.Pib.Validator

namespace NdnTools.Pib

open UpdateQueryProcessor (isUpdateAllowed setKeyDefault setIdDefault setUserDefault)

section
variable [Certificates]

/-- No identity and no key is stored under `/localhost/pib`. -/
structure NoReserved (db : Db) : Prop where
  identities : ∀ n, db.hasIdentity n → ¬ localhostPib <+: n
  keys : ∀ n, db.hasKey n → ¬ localhostPib <+: n

/-- The management certificate is set, as `updateMgmtCertificate` sets it. -/
def MgmtSet (db : Db) : Prop :=
  ∃ m keyId, db.mgmt = some m ∧ m.localManagementCert.publicKeyName = localhostPib ++ [m.owner, mgmtLabel, keyId]

/-- The signer's key is the management key. -/
def MgmtSigned (db : Db) (signer : Name) : Prop :=
  ∃ mgmt, db.getMgmtCertificate = some mgmt ∧ signer = getPrefix mgmt.name

/-- The PIB under the commands of signers whose keys the validator accepts. -/
def acceptedService : Machine Db (Command × Name) where
  enabled db e := (∃ key, CurrentKey db e.2 key) ∧ pibService.enabled db e
  step := pibService.step

/-- The signer may add the certificate: as the management key, or as the default key of an identity whose name is a
prefix of the certificate's. -/
def Granted (db : Db) (signer certName : Name) (defaultOpt : UInt32) : Prop :=
  ¬ localhostPib <+: certName ∧ ∃ key, certificateNameToPublicKeyName signer = .ok key ∧
    (MgmtSigned db signer ∨
      (IsDefaultKey db key ∧ getPrefix key <+: certName ∧ defaultOpt ≠ defaultOptUser))

/-- A certificate of a reserved key is not granted. -/
def Sealed (db : Db) : Command × Name → Prop
  | (.update ⟨.certificate cert, defaultOpt⟩, signer) =>
    localhostPib <+: cert.publicKeyName → ¬ Granted db signer cert.name defaultOpt
  | _ => True

/-- The management certificate is replaced by a command of the management key only. -/
def MgmtKept (db : Db) (e : Command × Name) : Prop :=
  (acceptedService.step db e).mgmt ≠ db.mgmt → MgmtSigned db e.2

variable {db db' : Db} {signer targetName keyName n : Name} {targetType : TargetType} {defaultOpt : UInt32}
  {bits : PublicKey} {cert : IdentityCertificate} {reply : PibError}

theorem notMgmt_or_mgmtSigned (db : Db) (signer : Name) : NotMgmt db signer ∨ MgmtSigned db signer := by
  by_cases hs : MgmtSigned db signer
  · exact .inr hs
  · exact .inl fun mgmt hm he => hs ⟨mgmt, hm, he⟩

/-! ## The permission -/

/-- A certificate that is added is granted, or one of the signer's key. -/
theorem granted_of_isUpdateAllowed (hall : isUpdateAllowed db .cert targetName signer defaultOpt = .ok true) :
    Granted db signer targetName defaultOpt ∨
      (NotMgmt db signer ∧ ∃ key, certificateNameToPublicKeyName signer = .ok key ∧
        certificateNameToPublicKeyName targetName = .ok key) := by
  obtain ⟨hreserved, -, key, mgmt, hk, hm, hcase⟩ := isUpdateAllowed_iff.1 hall
  rcases notMgmt_or_mgmtSigned db signer with hs | hs
  · rcases hcase with hs' | ⟨hd, hp, huser⟩ | ⟨-, -, ht, -⟩
    · exact absurd hs' (hs mgmt hm)
    · exact .inl ⟨hreserved, key, hk, .inr ⟨hd, hp, huser⟩⟩
    · exact .inr ⟨hs, key, hk, ht⟩
  · exact .inl ⟨hreserved, key, hk, .inl hs⟩

theorem isUpdateAllowed_of_granted (hm : db.getMgmtCertificate = some cert)
    (hg : Granted db signer targetName defaultOpt) :
    isUpdateAllowed db .cert targetName signer defaultOpt = .ok true := by
  obtain ⟨hreserved, key, hk, hgrant⟩ := hg
  refine isUpdateAllowed_iff.2 ⟨hreserved, by simp, key, cert, hk, hm, ?_⟩
  rcases hgrant with ⟨mgmt, hm', he⟩ | hgrant
  · rw [hm] at hm'
    cases hm'
    exact .inl he
  · exact .inr (.inl hgrant)

/-! ## What is stored -/

theorem NoReserved.of_subset (h : NoReserved db) (hi : ∀ n, db'.hasIdentity n → db.hasIdentity n)
    (hk : ∀ n, db'.hasKey n → db.hasKey n) : NoReserved db' where
  identities n hn := h.identities n (hi n hn)
  keys n hn := h.keys n (hk n hn)

/-- The rows tell what is stored. -/
theorem noReserved_of_rows (hi : ∀ i ∈ db.identities, ¬ localhostPib <+: i.name)
    (hk : ∀ k ∈ db.keys, ¬ localhostPib <+: k.name) : NoReserved db := by
  constructor
  · rintro n ⟨i, hmem, rfl⟩
    exact hi i hmem
  · rintro n ⟨k, hmem, rfl⟩
    exact hk k hmem

omit [Certificates] in
/-- A name whose prefix is reserved is. -/
theorem not_reserved_getPrefix (hn : ¬ localhostPib <+: n) : ¬ localhostPib <+: getPrefix n :=
  fun hp => hn (hp.trans (List.dropLast_prefix n))

theorem noReserved_addIdentity (h : db.Integrity) (hr : NoReserved db) (hn : ¬ localhostPib <+: n) :
    NoReserved (db.addIdentity n) := by
  refine ⟨?_, hr.keys⟩
  rintro m ⟨i, hi, rfl⟩
  rcases DefaultTable.mem_insertRow h.identities hi with hi | ⟨-, -, hin, -⟩
  · exact hr.identities _ ⟨i, hi, rfl⟩
  · rw [hin]
    exact hn

theorem noReserved_ensureIdentity (h : db.Integrity) (hr : NoReserved db) (hn : ¬ localhostPib <+: n) :
    NoReserved (db.ensureIdentity n) := by
  unfold Db.ensureIdentity
  split
  · exact hr
  · exact noReserved_addIdentity h hr hn

theorem noReserved_insertKey (h : db.Integrity) (hr : NoReserved db) (hn : ¬ localhostPib <+: n) :
    NoReserved (db.insertKey n bits) := by
  unfold Db.insertKey
  split
  · exact hr
  · refine ⟨hr.identities, ?_⟩
    rintro m ⟨k, hk, rfl⟩
    rcases DefaultTable.mem_insertRow h.keys hk with hk | ⟨-, -, hkn, -⟩
    · exact hr.keys _ ⟨k, hk, rfl⟩
    · rw [hkn]
      exact hn

theorem noReserved_addKey (h : db.Integrity) (hr : NoReserved db) (hn : ¬ localhostPib <+: n) :
    NoReserved (db.addKey n bits) := by
  unfold Db.addKey
  split
  · exact hr
  · exact noReserved_insertKey (Db.integrity_ensureIdentity h _)
      (noReserved_ensureIdentity h hr (not_reserved_getPrefix hn)) hn

theorem noReserved_addCertificate (h : db.Integrity) (hr : NoReserved db)
    (hn : ¬ localhostPib <+: cert.publicKeyName) : NoReserved (db.addCertificate cert) := by
  have hkey : NoReserved (db.ensureKey cert.publicKeyName cert.publicKeyInfo) := by
    unfold Db.ensureKey
    split
    · exact hr
    · exact noReserved_addKey h hr hn
  refine hkey.of_subset (fun n hi => ?_) fun n hk => ?_
  · unfold Db.addCertificate Db.hasIdentity at hi
    rw [Db.insertCertificate_identities] at hi
    exact hi
  · unfold Db.addCertificate Db.hasKey at hk
    rw [Db.insertCertificate_keys] at hk
    exact hk

theorem noReserved_setKeyDefault (hr : NoReserved db) : NoReserved (setKeyDefault defaultOpt n db) := by
  refine hr.of_subset (fun m hi => ?_) fun m hk => ?_
  · unfold Db.hasIdentity at hi
    rw [setKeyDefault_identities] at hi
    exact hi
  · unfold Db.hasKey at hk
    rw [setKeyDefault_keys] at hk
    exact hk

theorem noReserved_setIdDefault (h : db.Integrity) (hr : NoReserved db) :
    NoReserved (setIdDefault defaultOpt n db) := by
  refine hr.of_subset (fun m hi => ?_) fun m hk => (hasKey_setIdDefault h).1 hk
  unfold Db.hasIdentity at hi
  rw [setIdDefault_identities] at hi
  exact hi

theorem noReserved_setUserDefault (h : db.Integrity) (hr : NoReserved db) :
    NoReserved (setUserDefault defaultOpt n db) := by
  refine hr.of_subset (fun m hi => ?_) fun m hk => ?_
  · unfold setUserDefault at hi
    split at hi
    · exact (DefaultTable.has_setDefault h.identities n).1 hi
    · exact hi
  · unfold Db.hasKey at hk
    rw [setUserDefault_keys] at hk
    exact hk

theorem noReserved_updateKey (h : db.Integrity) (hr : NoReserved db) (hn : ¬ localhostPib <+: keyName) :
    NoReserved (updateKey keyName bits defaultOpt db) := by
  have h₁ := Db.integrity_addKey h keyName bits
  exact noReserved_setUserDefault (integrity_setIdDefault h₁ _ _)
    (noReserved_setIdDefault h₁ (noReserved_addKey h hr hn))

theorem noReserved_updateCert (h : db.Integrity) (hr : NoReserved db) (hn : ¬ localhostPib <+: cert.publicKeyName) :
    NoReserved (updateCert cert defaultOpt db) := by
  have h₂ := integrity_setKeyDefault (Db.integrity_addCertificate h cert) defaultOpt cert.name
  exact noReserved_setUserDefault (integrity_setIdDefault h₂ _ _)
    (noReserved_setIdDefault h₂ (noReserved_setKeyDefault (noReserved_addCertificate h hr hn)))

theorem noReserved_deleteKeysWhere (hr : NoReserved db) (p : DefaultTable.Row ℕ Name PublicKey → Bool) :
    NoReserved (db.deleteKeysWhere p) := by
  refine hr.of_subset (fun n hn => hn) ?_
  rintro n ⟨k, hk, hn⟩
  exact ⟨k, (DefaultTable.mem_deleteWhere.1 hk).1, hn⟩

theorem noReserved_deleteIdentity (hr : NoReserved db) : NoReserved (db.deleteIdentity n) := by
  have hkeys := noReserved_deleteKeysWhere hr fun k => decide (∃ i ∈ db.identities, i.name = n ∧ i.id = k.scope)
  refine ⟨?_, hkeys.keys⟩
  rintro m ⟨i, hi, hn⟩
  exact hr.identities m ⟨i, (DefaultTable.mem_deleteWhere.1 hi).1, hn⟩

theorem noReserved_delete (hr : NoReserved db) {param : DeleteParam}
    (hok : DeleteQueryProcessor.process db param signer = some (db', reply)) : NoReserved db' := by
  rcases delete_cases hok with rfl | rfl | rfl | rfl
  · exact hr
  · exact noReserved_deleteIdentity hr
  · exact noReserved_deleteKeysWhere hr _
  · exact ⟨hr.identities, hr.keys⟩

/-! ## The management certificate -/

theorem mgmtSet_of_update (hok : db.updateMgmtCertificate cert = .ok db') : MgmtSet db' := by
  unfold Db.updateMgmtCertificate at hok
  split at hok
  · rename_i a b owner label keyId hname
    split at hok
    · cases hok
    · rename_i hconv
      obtain ⟨hab, hlabel⟩ := not_or.1 hconv
      have hkey : cert.publicKeyName = localhostPib ++ [owner, mgmtLabel, keyId] := by
        rw [hname, ← not_not.1 hab, not_not.1 hlabel]
        rfl
      split at hok
      · rename_i m hm
        split at hok
        · cases hok
        · rename_i howner
          cases hok
          refine ⟨_, keyId, rfl, ?_⟩
          rw [not_not.1 howner]
          exact hkey
      · cases hok
        exact ⟨_, keyId, rfl, hkey⟩
  · cases hok

/-- The management certificate stays, or a signer replaces it whose key belongs to the identity of its key. -/
theorem mgmt_process {c : Command} (hok : c.process db signer = some (db', reply)) :
    db'.mgmt = db.mgmt ∨ ∃ cert mgmt key, db.updateMgmtCertificate cert = .ok db' ∧
      db.getMgmtCertificate = some mgmt ∧ certificateNameToPublicKeyName signer = .ok key ∧
      getPrefix mgmt.publicKeyName = getPrefix key := by
  cases c with
  | delete param =>
    refine .inl ?_
    rcases delete_cases hok with rfl | rfl | rfl | rfl <;> rfl
  | update param =>
    obtain ⟨entity, defaultOpt⟩ := param
    cases entity with
    | user mgmtCert =>
      rcases updateUser_spec hok with rfl | ⟨hupdate, mgmt, key, hm, hk, hprefix⟩
      · exact .inl rfl
      · exact .inr ⟨mgmtCert, mgmt, key, hupdate, hm, hk, hprefix⟩
    | identity identity =>
      refine .inl ?_
      rcases carryOut_cases hok with rfl | rfl
      · rfl
      · exact setUserDefault_mgmt
    | publicKey keyName bits =>
      refine .inl ?_
      rcases carryOut_cases hok with rfl | rfl
      · rfl
      · simp
    | certificate cert =>
      refine .inl ?_
      rcases carryOut_cases hok with rfl | rfl
      · rfl
      · simp

/-! ## A command -/

/-- A signer whose key the validator accepts and that is not the management key has its key stored. -/
theorem hasKey_of_currentKey (h : db.Integrity) (hs : NotMgmt db signer) (hacc : ∃ key, CurrentKey db signer key)
    (hk : certificateNameToPublicKeyName signer = .ok keyName) : db.hasKey keyName := by
  obtain ⟨key, ⟨mgmt, hm, he, -⟩ | ⟨-, keyName', hk', hkey⟩⟩ := hacc
  · exact absurd he (hs mgmt hm)
  · rw [hk] at hk'
    cases hk'
    obtain ⟨k, hk, hn, -⟩ := (getKey_eq_some h).1 hkey
    exact ⟨k, hk, hn⟩

theorem noReserved_process {c : Command} (h : db.Integrity) (hr : NoReserved db)
    (hacc : ∃ key, CurrentKey db signer key) (hsealed : Sealed db (c, signer))
    (hok : c.process db signer = some (db', reply)) : NoReserved db' := by
  cases c with
  | delete param => exact noReserved_delete hr hok
  | update param =>
    obtain ⟨entity, defaultOpt⟩ := param
    cases entity with
    | user mgmtCert =>
      rcases updateUser_cases hok with rfl | hm
      · exact hr
      · obtain ⟨m, rfl⟩ := Db.updateMgmtCertificate_eq hm
        exact ⟨hr.identities, hr.keys⟩
    | identity identity =>
      rcases carryOut_allowed hok with rfl | ⟨hall, rfl⟩
      · exact hr
      · exact noReserved_setUserDefault (Db.integrity_addIdentity h identity)
          (noReserved_addIdentity h hr (isUpdateAllowed_iff.1 hall).1)
    | publicKey keyName bits =>
      rcases carryOut_allowed hok with rfl | ⟨hall, rfl⟩
      · exact hr
      · exact noReserved_updateKey h hr (isUpdateAllowed_iff.1 hall).1
    | certificate cert =>
      rcases carryOut_allowed hok with rfl | ⟨hall, rfl⟩
      · exact hr
      · refine noReserved_updateCert h hr fun hp => ?_
        rcases granted_of_isUpdateAllowed hall with hg | ⟨hs, key, hk, hcert⟩
        · exact hsealed hp hg
        · -- the certificate is one of the signer's key, which is stored
          rw [cert.named] at hcert
          cases hcert
          exact hr.keys _ (hasKey_of_currentKey h hs hacc hk) hp

/-- A certificate of a reserved key that is granted opens the namespace. -/
theorem sealed_of_noReserved {c : Command} (h : db.Integrity) (hm : MgmtSet db)
    (hok : c.process db signer = some (db', reply)) (hr : NoReserved db') : Sealed db (c, signer) := by
  match c with
  | .delete param => trivial
  | .update ⟨.user _, _⟩ => trivial
  | .update ⟨.identity _, _⟩ => trivial
  | .update ⟨.publicKey _ _, _⟩ => trivial
  | .update ⟨.certificate cert, defaultOpt⟩ =>
    intro hp hg
    obtain ⟨m, -, hm, -⟩ := hm
    have hmgmt : db.getMgmtCertificate = some m.localManagementCert := by
      unfold Db.getMgmtCertificate
      rw [hm]
      rfl
    have hdb' : answer db (carryOut (.ok true) db (updateCert cert defaultOpt db)) = some (db', reply) := by
      rw [← isUpdateAllowed_of_granted hmgmt hg]
      exact hok
    cases hdb'
    have hne : cert.publicKeyName ≠ [] := by
      intro hnil
      rw [hnil] at hp
      cases List.prefix_nil.1 hp
    exact hr.keys _ (hasKey_updateCert h hne) hp

/-! ## Runs -/

/-- What the commands keep as long as the namespace is closed. -/
structure Closed (db : Db) : Prop where
  integrity : db.Integrity
  mgmtSet : MgmtSet db
  noReserved : NoReserved db

theorem closed_step {e : Command × Name} (h : Closed db) (he : acceptedService.enabled db e) (hs : Sealed db e) :
    Closed (acceptedService.step db e) := by
  obtain ⟨reply, hok⟩ := process_of_enabled he.2
  refine ⟨integrity_process h.integrity hok, ?_, noReserved_process h.integrity h.noReserved he.1 hs hok⟩
  rcases mgmt_process hok with hmgmt | ⟨cert, -, -, hupdate, -⟩
  · obtain ⟨m, keyId, hm, hname⟩ := h.mgmtSet
    exact ⟨m, keyId, hmgmt.trans hm, hname⟩
  · exact mgmtSet_of_update hupdate

/-- While the namespace is closed, no stored key belongs to the identity of the management key. -/
theorem mgmtKept_of_closed {e : Command × Name} (h : Closed db) (he : acceptedService.enabled db e) :
    MgmtKept db e := by
  intro hne
  obtain ⟨reply, hok⟩ := process_of_enabled he.2
  rcases mgmt_process hok with hmgmt | ⟨cert, mgmt, key, -, hm, hk, hprefix⟩
  · exact absurd hmgmt hne
  · rcases notMgmt_or_mgmtSigned db e.2 with hs | hs
    · obtain ⟨m, keyId, hm', hname⟩ := h.mgmtSet
      have hmgmt : mgmt = m.localManagementCert := by
        unfold Db.getMgmtCertificate at hm
        rw [hm'] at hm
        exact (Option.some.inj hm).symm
      rw [hmgmt, hname] at hprefix
      have hp : localhostPib <+: getPrefix key := by
        rw [← hprefix]
        exact ⟨[m.owner, mgmtLabel], by simp [getPrefix]⟩
      exact absurd (hp.trans (List.dropLast_prefix key))
        (h.noReserved.keys key (hasKey_of_currentKey h.integrity hs he.1 hk))
    · exact hs

/-- In every run of commands that the validator lets through, the reserved namespace stays closed and the
management certificate is only replaced with its own key, exactly if no certificate of a reserved key is granted. -/
theorem reserved_closed_iff {es : List (Command × Name)} (h : db.Integrity) (hm : MgmtSet db) (hn : NoReserved db)
    (hr : acceptedService.Runs db es) :
    acceptedService.Always NoReserved db es ∧ acceptedService.Each MgmtKept db es ↔
      acceptedService.Each Sealed db es := by
  have hiff : acceptedService.Always NoReserved db es ↔ acceptedService.Each Sealed db es := by
    refine Machine.always_iff_each (fun _ hs => hs.noReserved) (fun _ _ hs he hc => closed_step hs he hc)
      (fun db e hs he hp => ?_) ⟨h, hm, hn⟩ hr
    obtain ⟨reply, hok⟩ := process_of_enabled he.2
    exact sealed_of_noReserved hs.integrity hs.mgmtSet hok hp
  constructor
  · rintro ⟨halways, -⟩
    exact hiff.1 halways
  · intro hsealed
    have hclosed : acceptedService.Always Closed db es :=
      Machine.always_of_inv (c := Sealed) (fun _ _ hs he hc => closed_step hs he hc) ⟨h, hm, hn⟩ hr hsealed
    have hkept : acceptedService.Each MgmtKept db es :=
      Machine.each_of_always (J := Closed) (fun _ _ hs he _ => mgmtKept_of_closed hs he) hr hclosed
    exact ⟨hiff.2 hsealed, hkept⟩

end

/-! ## An example -/

section
local instance namesAsDocumented' : Certificates := .documented

/-- The default key of `/b` adds a key of the sub identity `/b/c` and a certificate of `/b/dsk`. -/
def commandsOfB : List (Command × Name) :=
  [(.update ⟨.publicKey ["b", "c", "k"] [], defaultOptId⟩, signerOfB),
    (.update ⟨.certificate certOfDsk, 0⟩, signerOfB)]

theorem reserved_closed_iff_commandsOfB :
    acceptedService.Always NoReserved twoIdentities commandsOfB ∧
      acceptedService.Each MgmtKept twoIdentities commandsOfB := by
  have hset : MgmtSet twoIdentities := ⟨⟨"u", mgmtCertOfU⟩, "m", by decide +kernel, by decide +kernel⟩
  have hclosed : NoReserved twoIdentities := noReserved_of_rows (by decide +kernel) (by decide +kernel)
  have hruns : acceptedService.Runs twoIdentities commandsOfB := by
    refine ⟨⟨⟨[], .inr ⟨by decide +kernel, ["b", "ksk"], by decide +kernel, by decide +kernel⟩⟩, ?_⟩,
      ⟨⟨[], .inr ⟨by decide +kernel, ["b", "ksk"], by decide +kernel, by decide +kernel⟩⟩, ?_⟩, trivial⟩
    · show Option.isSome _ = true
      decide +kernel
    · show Option.isSome _ = true
      decide +kernel
  have hcert : ¬ localhostPib <+: certOfDsk.publicKeyName := by decide +kernel
  exact (reserved_closed_iff integrity_twoIdentities hset hclosed hruns).2
    ⟨trivial, fun hp => absurd hp hcert, trivial⟩

/-- The identity `/localhost` has the default key `/localhost/k`. -/
def localhostIdentity : Db := Db.addKey ["localhost", "k"] [] { Db.empty with mgmt := some ⟨"u", mgmtCertOfU⟩ }

/-- A certificate whose key name is that of a management key of `u`. -/
def certOfReserved : IdentityCertificate :=
  ⟨["localhost", "KEY", "pib", "u", "mgmt", "e", "ID-CERT", "1"], ["localhost", "pib", "u", "mgmt", "e"], [48], [],
    by decide +kernel, rfl⟩

def nextMgmtCert : IdentityCertificate :=
  ⟨["localhost", "pib", "u", "mgmt", "KEY", "n", "ID-CERT", "1"], ["localhost", "pib", "u", "mgmt", "n"], [48], [],
    by decide +kernel, rfl⟩

/-- The default key of `/localhost` adds the certificate. -/
def reservedCertAdded : Command × Name :=
  (.update ⟨.certificate certOfReserved, 0⟩, ["localhost", "KEY", "k", "ID-CERT"])

/-- And the key of this replaces the management certificate. -/
def mgmtCertReplaced : Command × Name :=
  (.update ⟨.user nextMgmtCert, 0⟩, ["localhost", "KEY", "pib", "u", "mgmt", "e", "ID-CERT"])

theorem namespace_opened :
    localhostIdentity.Integrity ∧ MgmtSet localhostIdentity ∧ NoReserved localhostIdentity ∧
      acceptedService.Runs localhostIdentity [reservedCertAdded, mgmtCertReplaced] ∧
      ¬ acceptedService.Always NoReserved localhostIdentity [reservedCertAdded, mgmtCertReplaced] ∧
      ¬ acceptedService.Each MgmtKept localhostIdentity [reservedCertAdded, mgmtCertReplaced] := by
  refine ⟨Db.integrity_addKey (Db.integrity_withMgmt Db.integrity_empty _) _ _,
    ⟨⟨"u", mgmtCertOfU⟩, "m", by decide +kernel, by decide +kernel⟩,
    noReserved_of_rows (by decide +kernel) (by decide +kernel),
    ⟨⟨⟨[], .inr ⟨by decide +kernel, ["localhost", "k"], by decide +kernel, by decide +kernel⟩⟩, ?_⟩,
      ⟨⟨[48], .inr ⟨by decide +kernel, ["localhost", "pib", "u", "mgmt", "e"], by decide +kernel,
        by decide +kernel⟩⟩, ?_⟩, trivial⟩, fun hall => ?_, fun hkept => ?_⟩
  · show Option.isSome _ = true
    decide +kernel
  · show Option.isSome _ = true
    decide +kernel
  · have hopen := hall.2.head.keys ["localhost", "pib", "u", "mgmt", "e"] (by decide +kernel)
    exact hopen (by decide +kernel)
  · obtain ⟨mgmt, hm, he⟩ := hkept.2.1 (by decide +kernel)
    have hno : NotMgmt (acceptedService.step localhostIdentity reservedCertAdded) mgmtCertReplaced.2 := by
      decide +kernel
    exact hno mgmt hm he

end

end NdnTools.Pib
