/-
Whose rows the operations of the PIB database change. A row belongs to an identity: an identity to
itself, a key to the identity its name tells, a certificate to the identity of its key.
-/
import NdnTools.Pib.Integrity

namespace NdnTools.Pib

open DefaultTable (Changed)

variable [Certificates]

/-- Every row that is inserted, deleted or gets another flag belongs to an identity in `P`. -/
structure Footprint (P : Name → Prop) (db db' : Db) : Prop where
  identities : ∀ i, Changed db.identities db'.identities i → P i.name
  keys : ∀ k, Changed db.keys db'.keys k → P (getPrefix k.name)
  certificates : ∀ c, Changed db.certificates db'.certificates c → P (getPrefix c.data.publicKeyName)

variable {db db' db'' : Db} {P Q : Name → Prop} {n : Name}

namespace Footprint

theorem refl (P : Name → Prop) (db : Db) : Footprint P db db := by
  constructor <;> rintro r hc <;> exact absurd hc DefaultTable.not_changed_refl

theorem trans (h : Footprint P db db') (h' : Footprint P db' db'') : Footprint P db db'' where
  identities i hc := hc.split.elim (h.identities i) (h'.identities i)
  keys k hc := hc.split.elim (h.keys k) (h'.keys k)
  certificates c hc := hc.split.elim (h.certificates c) (h'.certificates c)

theorem mono (h : Footprint P db db') (hpq : ∀ n, P n → Q n) : Footprint Q db db' where
  identities i hc := hpq _ (h.identities i hc)
  keys k hc := hpq _ (h.keys k hc)
  certificates c hc := hpq _ (h.certificates c hc)

/-- An operation on the table of identities alone. -/
theorem of_identities {t : DefaultTable Unit Name Unit} (h : ∀ i, Changed db.identities t i → P i.name) :
    Footprint P db { db with identities := t } :=
  { refl P db with identities := h }

theorem of_keys {t : DefaultTable ℕ Name PublicKey} (h : ∀ k, Changed db.keys t k → P (getPrefix k.name)) :
    Footprint P db { db with keys := t } :=
  { refl P db with keys := h }

theorem of_certificates {t : DefaultTable ℕ Name IdentityCertificate}
    (h : ∀ c, Changed db.certificates t c → P (getPrefix c.data.publicKeyName)) :
    Footprint P db { db with certificates := t } :=
  { refl P db with certificates := h }

/-! ## Names outside the footprint -/

/-- No key is added outside of `P`. -/
theorem hasKey (h : Footprint P db db') (hn : ¬ P (getPrefix n)) (hk : db'.hasKey n) : db.hasKey n := by
  by_contra hno
  obtain ⟨k, hc, rfl⟩ := DefaultTable.changed_of_has hk hno
  exact hn (h.keys k hc)

/-- And no row becomes a default. -/
theorem isDefault_identity (h : Footprint P db db') (hn : ¬ P n) (hi : db'.identities.IsDefault n) :
    db.identities.IsDefault n := by
  by_contra hno
  obtain ⟨i, hc, rfl⟩ := DefaultTable.changed_of_isDefault hi hno
  exact hn (h.identities i hc)

theorem isDefault_key (h : Footprint P db db') (hn : ¬ P (getPrefix n)) (hk : db'.keys.IsDefault n) :
    db.keys.IsDefault n := by
  by_contra hno
  obtain ⟨k, hc, rfl⟩ := DefaultTable.changed_of_isDefault hk hno
  exact hn (h.keys k hc)

end Footprint

namespace Db

/-! ## Insertion -/

theorem footprint_updateMgmtCertificate {cert : IdentityCertificate} (P : Name → Prop)
    (hok : db.updateMgmtCertificate cert = .ok db') : Footprint P db db' := by
  obtain ⟨m, rfl⟩ := updateMgmtCertificate_eq hok
  exact ⟨(Footprint.refl P db).identities, (Footprint.refl P db).keys, (Footprint.refl P db).certificates⟩

theorem footprint_addIdentity (h : Integrity db) (n : Name) : Footprint (· = n) db (db.addIdentity n) :=
  .of_identities fun _ hc => (DefaultTable.changed_insertRow h.identities hc).2.2.1

theorem footprint_ensureIdentity (h : Integrity db) (n : Name) : Footprint (· = n) db (db.ensureIdentity n) := by
  unfold ensureIdentity
  split
  · exact .refl _ _
  · exact footprint_addIdentity h n

theorem footprint_insertKey (h : Integrity db) (n : Name) (key : PublicKey) :
    Footprint (· = getPrefix n) db (db.insertKey n key) := by
  unfold insertKey
  split
  · exact .refl _ _
  · exact .of_keys fun k hc => by rw [(DefaultTable.changed_insertRow h.keys hc).2.2.1]

theorem footprint_addKey (h : Integrity db) (n : Name) (key : PublicKey) :
    Footprint (· = getPrefix n) db (db.addKey n key) := by
  unfold addKey
  split
  · exact .refl _ _
  · exact (footprint_ensureIdentity h _).trans (footprint_insertKey (integrity_ensureIdentity h _) n key)

theorem footprint_ensureKey (h : Integrity db) (n : Name) (key : PublicKey) :
    Footprint (· = getPrefix n) db (db.ensureKey n key) := by
  unfold ensureKey
  split
  · exact .refl _ _
  · exact footprint_addKey h n key

theorem footprint_addCertificate (h : Integrity db) (cert : IdentityCertificate) :
    Footprint (· = getPrefix cert.publicKeyName) db (db.addCertificate cert) := by
  refine (footprint_ensureKey h cert.publicKeyName cert.publicKeyInfo).trans ?_
  have h' := integrity_ensureKey h cert.publicKeyName cert.publicKeyInfo
  unfold addCertificate insertCertificate
  split
  · exact .refl _ _
  · exact .of_certificates fun c hc => by rw [(DefaultTable.changed_insertRow h'.certificates hc).2.2.2]

/-! ## Defaults -/

/-- The identity that loses the user's default flag changes too. -/
theorem footprint_setDefaultIdentity (h : Integrity db) (n : Name) :
    Footprint (fun m => m = n ∨ ∃ i ∈ db.identities, i.isDefault = true ∧ i.name = m) db (db.setDefaultIdentity n) :=
  .of_identities fun i hc => by
    obtain ⟨r, -, hr, p, hp, -, hn, -, hd⟩ := DefaultTable.changed_setDefault h.identities hc
    rcases hd with rfl | hd
    · exact .inl (hn.symm.trans hr)
    · exact .inr ⟨p, hp, hd, hn⟩

/-- A key's rivals belong to its identity. -/
theorem footprint_setDefaultKey (h : Integrity db) (n : Name) :
    Footprint (· = getPrefix n) db (db.setDefaultKeyNameOfIdentity n) :=
  .of_keys fun k hc => by
    obtain ⟨r, hr, rfl, p, hp, hs, hn, -, -⟩ := DefaultTable.changed_setDefault h.keys hc
    rw [← hn]
    exact h.prefix_eq hp hr hs

/-- A stored certificate has the key of any certificate of its name. -/
theorem Integrity.publicKeyName_of_name (h : Integrity db) {c : DefaultTable.Row ℕ Name IdentityCertificate}
    {cert : IdentityCertificate} (hc : c ∈ db.certificates) (hn : c.name = cert.name) :
    c.data.publicKeyName = cert.publicKeyName :=
  IdentityCertificate.publicKeyName_eq ((h.certOf c hc).1.symm.trans hn)

/-- A certificate's rivals belong to its key. -/
theorem footprint_setDefaultCert (h : Integrity db) (cert : IdentityCertificate) :
    Footprint (· = getPrefix cert.publicKeyName) db (db.setDefaultCertNameOfKey cert.name) :=
  .of_certificates fun c hc => by
    obtain ⟨r, hr, hrn, p, hp, hs, -, hd, -⟩ := DefaultTable.changed_setDefault h.certificates hc
    rw [← hd, h.publicKeyName_eq hp hr hs, h.publicKeyName_of_name hr hrn]

/-- No certificate is added outside of `P`. -/
theorem Integrity.hasCertificate_of_footprint (h' : Integrity db') {cert : IdentityCertificate}
    (hf : Footprint P db db')
    (hn : ¬ P (getPrefix cert.publicKeyName)) (hc : db'.hasCertificate cert.name) : db.hasCertificate cert.name := by
  obtain ⟨c, hc, hcn⟩ := hc
  by_contra hno
  refine hn ?_
  rw [← h'.publicKeyName_of_name hc hcn]
  exact hf.certificates c (.inr ⟨fun hc' => hno ⟨c, hc', hcn⟩, hc⟩)

theorem Integrity.isDefault_of_footprint (h : Integrity db) {cert : IdentityCertificate} (hf : Footprint P db db')
    (hn : ¬ P (getPrefix cert.publicKeyName)) (hc : db'.certificates.IsDefault cert.name) :
    db.certificates.IsDefault cert.name := by
  intro c hc' hcn
  by_contra hd
  refine hn ?_
  rw [← h.publicKeyName_of_name hc' hcn]
  exact hf.certificates c (.inl ⟨hc', fun hc'' => hd (hc c hc'' hcn)⟩)

/-! ## Deletion -/

theorem footprint_deleteCertificate (n : Name) :
    Footprint (fun m => ∃ c ∈ db.certificates, c.name = n ∧ getPrefix c.data.publicKeyName = m) db
      (db.deleteCertificate n) :=
  .of_certificates fun c hc => by
    obtain ⟨hc, hn⟩ := DefaultTable.changed_deleteWhere.1 hc
    exact ⟨c, hc, by simpa using hn, rfl⟩

/-- The certificates deleted by cascade belong to the identities of the deleted keys. -/
theorem footprint_deleteKeysWhere (h : Integrity db) (p : DefaultTable.Row ℕ Name PublicKey → Bool) :
    Footprint (fun m => ∃ k ∈ db.keys, p k = true ∧ getPrefix k.name = m) db (db.deleteKeysWhere p) where
  identities _ hc := absurd hc DefaultTable.not_changed_refl
  keys k hc := by
    obtain ⟨hk, hp⟩ := DefaultTable.changed_deleteWhere.1 hc
    exact ⟨k, hk, hp, rfl⟩
  certificates c hc := by
    obtain ⟨hc, hp⟩ := DefaultTable.changed_deleteWhere.1 hc
    obtain ⟨k, hk, hpk, hid⟩ := of_decide_eq_true hp
    obtain ⟨-, l, hl, hlid, hn⟩ := h.certOf c hc
    refine ⟨k, hk, hpk, ?_⟩
    rw [h.keys.eq_of_id hk hl (hid.trans hlid.symm), hn]

theorem footprint_deleteKey (h : Integrity db) (n : Name) :
    Footprint (fun m => db.hasKey n ∧ getPrefix n = m) db (db.deleteKey n) :=
  (footprint_deleteKeysWhere h _).mono fun _ ⟨k, hk, hp, hm⟩ => by
    have hn : k.name = n := by simpa using hp
    exact ⟨⟨k, hk, hn⟩, by rw [← hn]; exact hm⟩

theorem footprint_deleteIdentity (h : Integrity db) (n : Name) : Footprint (· = n) db (db.deleteIdentity n) := by
  refine Footprint.trans ((footprint_deleteKeysWhere h _).mono ?_) (.of_identities fun i hc => ?_)
  · rintro m ⟨k, hk, hp, rfl⟩
    obtain ⟨i, hi, hin, hid⟩ := of_decide_eq_true hp
    obtain ⟨-, j, hj, hjd, hjn⟩ := h.keyOf k hk
    rw [← hjn, ← hin, h.identities.eq_of_id hi hj (hid.trans hjd.symm)]
  · exact by simpa using (DefaultTable.changed_deleteWhere.1 hc).2

end Db

end NdnTools.Pib
