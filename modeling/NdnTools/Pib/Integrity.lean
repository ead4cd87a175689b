/-
The integrity of the PIB database: names, ids and defaults are unique, a key belongs to the identity
its name tells, a certificate to the key its name tells. Every operation keeps it.
-/
import NdnTools.Pib.Db

namespace NdnTools.Pib

variable [Certificates]

namespace Db

/-- What holds between the tables. -/
structure Integrity (db : Db) : Prop where
  identities : db.identities.Valid
  keys : db.keys.Valid
  certificates : db.certificates.Valid
  keyOf : ∀ k ∈ db.keys, k.name ≠ [] ∧ ∃ i ∈ db.identities, i.id = k.scope ∧ i.name = getPrefix k.name
  certOf : ∀ c ∈ db.certificates, c.name = c.data.name ∧ ∃ k ∈ db.keys, k.id = c.scope ∧ k.name = c.data.publicKeyName

theorem integrity_empty : Integrity (empty : Db) :=
  ⟨DefaultTable.valid_nil, DefaultTable.valid_nil, DefaultTable.valid_nil, fun k hk => (by cases hk),
    fun c hc => (by cases hc)⟩

variable {db db' : Db}

/-! ## The tables an insertion leaves alone -/

@[simp] theorem insertKey_identities {n : Name} {key : PublicKey} :
    (db.insertKey n key).identities = db.identities := by
  unfold insertKey; split <;> rfl

@[simp] theorem insertKey_certificates {n : Name} {key : PublicKey} :
    (db.insertKey n key).certificates = db.certificates := by
  unfold insertKey; split <;> rfl

@[simp] theorem insertKey_mgmt {n : Name} {key : PublicKey} : (db.insertKey n key).mgmt = db.mgmt := by
  unfold insertKey; split <;> rfl

@[simp] theorem ensureIdentity_mgmt {n : Name} : (db.ensureIdentity n).mgmt = db.mgmt := by
  unfold ensureIdentity; split <;> rfl

@[simp] theorem ensureIdentity_keys {n : Name} : (db.ensureIdentity n).keys = db.keys := by
  unfold ensureIdentity; split <;> rfl

@[simp] theorem ensureIdentity_certificates {n : Name} : (db.ensureIdentity n).certificates = db.certificates := by
  unfold ensureIdentity; split <;> rfl

@[simp] theorem addKey_certificates {n : Name} {key : PublicKey} :
    (db.addKey n key).certificates = db.certificates := by
  unfold addKey; split <;> simp

@[simp] theorem addKey_mgmt {n : Name} {key : PublicKey} : (db.addKey n key).mgmt = db.mgmt := by
  unfold addKey; split <;> simp

@[simp] theorem ensureKey_mgmt {n : Name} {key : PublicKey} : (db.ensureKey n key).mgmt = db.mgmt := by
  unfold ensureKey; split <;> simp

@[simp] theorem ensureKey_certificates {n : Name} {key : PublicKey} :
    (db.ensureKey n key).certificates = db.certificates := by
  unfold ensureKey; split <;> simp

@[simp] theorem insertCertificate_identities {cert : IdentityCertificate} :
    (db.insertCertificate cert).identities = db.identities := by
  unfold insertCertificate; split <;> rfl

@[simp] theorem insertCertificate_keys {cert : IdentityCertificate} :
    (db.insertCertificate cert).keys = db.keys := by
  unfold insertCertificate; split <;> rfl

@[simp] theorem insertCertificate_mgmt {cert : IdentityCertificate} : (db.insertCertificate cert).mgmt = db.mgmt := by
  unfold insertCertificate; split <;> rfl

@[simp] theorem addCertificate_mgmt {cert : IdentityCertificate} : (db.addCertificate cert).mgmt = db.mgmt := by
  unfold addCertificate; simp

/-! ## Looking up -/

theorem Integrity.identityId (h : Integrity db) {i : DefaultTable.Row Unit Name Unit} (hi : i ∈ db.identities) :
    db.identityId i.name = some i.id := by
  unfold Db.identityId; rw [h.identities.row_of_mem hi]; rfl

theorem Integrity.keyId (h : Integrity db) {k : DefaultTable.Row ℕ Name PublicKey} (hk : k ∈ db.keys) :
    db.keyId k.name = some k.id := by
  unfold Db.keyId; rw [h.keys.row_of_mem hk]; rfl

theorem identityId_eq_some {n : Name} {id : ℕ} (h : db.identityId n = some id) :
    ∃ i ∈ db.identities, i.id = id ∧ i.name = n := by
  obtain ⟨i, hi, rfl⟩ := Option.map_eq_some_iff.1 h
  exact ⟨i, (DefaultTable.mem_of_row hi).1, rfl, (DefaultTable.mem_of_row hi).2⟩

theorem keyId_eq_some {n : Name} {id : ℕ} (h : db.keyId n = some id) : ∃ k ∈ db.keys, k.id = id ∧ k.name = n := by
  obtain ⟨k, hk, rfl⟩ := Option.map_eq_some_iff.1 h
  exact ⟨k, (DefaultTable.mem_of_row hk).1, rfl, (DefaultTable.mem_of_row hk).2⟩

/-- Keys of one scope belong to the same identity. -/
theorem Integrity.prefix_eq (h : Integrity db) {k l : DefaultTable.Row ℕ Name PublicKey}
    (hk : k ∈ db.keys) (hl : l ∈ db.keys)
    (hs : k.scope = l.scope) : getPrefix k.name = getPrefix l.name := by
  obtain ⟨-, i, hi, hid, hn⟩ := h.keyOf k hk
  obtain ⟨-, j, hj, hjd, hm⟩ := h.keyOf l hl
  rw [← hn, ← hm, h.identities.eq_of_id hi hj (hid.trans (hs.trans hjd.symm))]

/-- Certificates of one scope belong to the same key. -/
theorem Integrity.publicKeyName_eq (h : Integrity db) {c d : DefaultTable.Row ℕ Name IdentityCertificate}
    (hc : c ∈ db.certificates) (hd : d ∈ db.certificates) (hs : c.scope = d.scope) :
    c.data.publicKeyName = d.data.publicKeyName := by
  obtain ⟨-, k, hk, hid, hn⟩ := h.certOf c hc
  obtain ⟨-, l, hl, hld, hm⟩ := h.certOf d hd
  rw [← hn, ← hm, h.keys.eq_of_id hk hl (hid.trans (hs.trans hld.symm))]

/-! ## The operations keep the integrity -/

/-- Only the row of the table `mgmt` is written. -/
theorem updateMgmtCertificate_eq {cert : IdentityCertificate} (h : db.updateMgmtCertificate cert = .ok db') :
    ∃ m, db' = { db with mgmt := some m } := by
  unfold updateMgmtCertificate at h
  split at h
  · split at h
    · cases h
    · split at h
      · split at h
        · cases h
        · cases h; exact ⟨_, rfl⟩
      · cases h; exact ⟨_, rfl⟩
  · cases h

theorem integrity_withMgmt (h : Integrity db) (m : Option Mgmt) : Integrity { db with mgmt := m } :=
  ⟨h.identities, h.keys, h.certificates, h.keyOf, h.certOf⟩

theorem integrity_updateMgmtCertificate {cert : IdentityCertificate} (h : Integrity db)
    (hok : db.updateMgmtCertificate cert = .ok db') : Integrity db' := by
  obtain ⟨m, rfl⟩ := updateMgmtCertificate_eq hok
  exact integrity_withMgmt h _

theorem integrity_addIdentity (h : Integrity db) (n : Name) : Integrity (db.addIdentity n) where
  identities := h.identities.insertRow
  keys := h.keys
  certificates := h.certificates
  keyOf k hk := by
    obtain ⟨hne, i, hi, hid⟩ := h.keyOf k hk
    exact ⟨hne, i, DefaultTable.mem_insertRow_of_mem h.identities hi, hid⟩
  certOf := h.certOf

theorem integrity_setDefaultIdentity (h : Integrity db) (n : Name) : Integrity (db.setDefaultIdentity n) where
  identities := h.identities.setDefault n
  keys := h.keys
  certificates := h.certificates
  keyOf k hk := by
    obtain ⟨hne, i, hi, hid, hn⟩ := h.keyOf k hk
    obtain ⟨j, hj, hjd, -, hjn, -⟩ := DefaultTable.mem_setDefault_of_mem h.identities hi n
    exact ⟨hne, j, hj, hjd.symm.trans hid, hjn.symm.trans hn⟩
  certOf := h.certOf

theorem integrity_ensureIdentity (h : Integrity db) (n : Name) : Integrity (db.ensureIdentity n) := by
  unfold ensureIdentity
  split
  · exact h
  · exact integrity_addIdentity h n

theorem integrity_insertKey (h : Integrity db) {n : Name} (hne : n ≠ []) (key : PublicKey) :
    Integrity (db.insertKey n key) := by
  unfold insertKey
  split
  · exact h
  · rename_i id hid
    obtain ⟨i, hi, rfl, hin⟩ := identityId_eq_some hid
    refine ⟨h.identities, h.keys.insertRow, h.certificates, fun k hk => ?_, fun c hc => ?_⟩
    · rcases DefaultTable.mem_insertRow h.keys hk with hk | ⟨-, hs, hkn, -⟩
      · exact h.keyOf k hk
      · exact ⟨by rw [hkn]; exact hne, i, hi, hs.symm, by rw [hkn, hin]⟩
    · obtain ⟨hcn, k, hk, hkd⟩ := h.certOf c hc
      exact ⟨hcn, k, DefaultTable.mem_insertRow_of_mem h.keys hk, hkd⟩

theorem integrity_addKey (h : Integrity db) (n : Name) (key : PublicKey) : Integrity (db.addKey n key) := by
  unfold addKey
  split
  · exact h
  · rename_i hne
    exact integrity_insertKey (integrity_ensureIdentity h _) hne key

theorem integrity_setDefaultKey (h : Integrity db) (n : Name) : Integrity (db.setDefaultKeyNameOfIdentity n) where
  identities := h.identities
  keys := h.keys.setDefault n
  certificates := h.certificates
  keyOf k hk := by
    obtain ⟨l, hl, -, hs, hn, -⟩ := DefaultTable.mem_setDefault h.keys hk
    rw [← hn, ← hs]
    exact h.keyOf l hl
  certOf c hc := by
    obtain ⟨hcn, k, hk, hid, hn⟩ := h.certOf c hc
    obtain ⟨l, hl, hld, -, hln, -⟩ := DefaultTable.mem_setDefault_of_mem h.keys hk n
    exact ⟨hcn, l, hl, hld.symm.trans hid, hln.symm.trans hn⟩

theorem integrity_ensureKey (h : Integrity db) (n : Name) (key : PublicKey) : Integrity (db.ensureKey n key) := by
  unfold ensureKey
  split
  · exact h
  · exact integrity_addKey h n key

theorem integrity_insertCertificate (h : Integrity db) (cert : IdentityCertificate) :
    Integrity (db.insertCertificate cert) := by
  unfold insertCertificate
  split
  · exact h
  · rename_i id hid
    obtain ⟨k, hk, rfl, hkn⟩ := keyId_eq_some hid
    refine ⟨h.identities, h.keys, h.certificates.insertRow, h.keyOf, fun c hc => ?_⟩
    rcases DefaultTable.mem_insertRow h.certificates hc with hc | ⟨-, hs, hcn, hcd⟩
    · exact h.certOf c hc
    · rw [hcn, hcd]
      exact ⟨rfl, k, hk, hs.symm, hkn⟩

theorem integrity_addCertificate (h : Integrity db) (cert : IdentityCertificate) :
    Integrity (db.addCertificate cert) :=
  integrity_insertCertificate (integrity_ensureKey h _ _) cert

theorem integrity_setDefaultCert (h : Integrity db) (n : Name) : Integrity (db.setDefaultCertNameOfKey n) where
  identities := h.identities
  keys := h.keys
  certificates := h.certificates.setDefault n
  keyOf := h.keyOf
  certOf c hc := by
    obtain ⟨d, hd, -, hs, hn, hdata⟩ := DefaultTable.mem_setDefault h.certificates hc
    rw [← hn, ← hs, ← hdata]
    exact h.certOf d hd

theorem integrity_deleteCertificate (h : Integrity db) (n : Name) : Integrity (db.deleteCertificate n) :=
  ⟨h.identities, h.keys, h.certificates.deleteWhere _, h.keyOf,
    fun c hc => h.certOf c (DefaultTable.mem_deleteWhere.1 hc).1⟩

theorem integrity_deleteKeysWhere (h : Integrity db) (p : DefaultTable.Row ℕ Name PublicKey → Bool) :
    Integrity (db.deleteKeysWhere p) := by
  refine ⟨h.identities, h.keys.deleteWhere _, h.certificates.deleteWhere _,
    fun k hk => h.keyOf k (DefaultTable.mem_deleteWhere.1 hk).1, fun c hc => ?_⟩
  obtain ⟨hc, hno⟩ := DefaultTable.mem_deleteWhere.1 hc
  obtain ⟨hcn, k, hk, hid, hn⟩ := h.certOf c hc
  refine ⟨hcn, k, DefaultTable.mem_deleteWhere.2 ⟨hk, ?_⟩, hid, hn⟩
  -- a certificate that is left is not one of a deleted key
  by_contra hp
  exact of_decide_eq_false hno ⟨k, hk, by simpa using hp, hid⟩

theorem integrity_deleteKey (h : Integrity db) (n : Name) :
    Integrity (db.deleteKey n) := integrity_deleteKeysWhere h _

theorem integrity_deleteIdentity (h : Integrity db) (n : Name) : Integrity (db.deleteIdentity n) := by
  have h' := integrity_deleteKeysWhere h fun k => decide (∃ i ∈ db.identities, i.name = n ∧ i.id = k.scope)
  refine ⟨h.identities.deleteWhere _, h'.keys, h'.certificates, fun k hk => ?_, h'.certOf⟩
  obtain ⟨hk, hno⟩ := DefaultTable.mem_deleteWhere.1 hk
  obtain ⟨hne, i, hi, hid, hin⟩ := h.keyOf k hk
  -- the keys of the deleted identity went before it
  refine ⟨hne, i, DefaultTable.mem_deleteWhere.2 ⟨hi, decide_eq_false fun he => ?_⟩, hid, hin⟩
  exact of_decide_eq_false hno ⟨i, hi, he, hid⟩

end Db

end NdnTools.Pib
