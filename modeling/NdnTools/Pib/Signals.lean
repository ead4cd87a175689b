/-
The signals of the PIB database: what its triggers report of the rows an operation deletes or inserts.
A row is reported after those that are deleted with it because they refer to it.
-/
import NdnTools.Pib.Operations

namespace NdnTools.Pib

variable [Certificates]

inductive Signal
  | identityDeleted (identity : Name)
  | keyDeleted (keyName : Name)
  | certificateDeleted (certificateName : Name)
  | certificateInserted (certificateName : Name)
  deriving Repr, DecidableEq

/-- The key whose deletion is reported. -/
def Signal.deletedKey : Signal → Option Name
  | keyDeleted keyName => some keyName
  | _ => none

namespace Db

/-- `cert_delete_trigger`, for the certificates `p` selects. -/
def certificatesDeleted (p : DefaultTable.Row ℕ Name IdentityCertificate → Bool) (db : Db) : List Signal :=
  (db.certificates.filter p).map fun c => .certificateDeleted c.name

/-- `key_delete_trigger`, for the keys `p` selects, each after its certificates. -/
def keysDeleted (p : DefaultTable.Row ℕ Name PublicKey → Bool) (db : Db) : List Signal :=
  (db.keys.filter p).flatMap fun k => db.certificatesDeleted (fun c => c.scope = k.id) ++ [.keyDeleted k.name]

/-- `identity_delete_trigger`, after the keys of the identity. -/
def identitiesDeleted (identity : Name) (db : Db) : List Signal :=
  (db.identities.filter fun i => i.name = identity).flatMap fun i =>
    db.keysDeleted (fun k => k.scope = i.id) ++ [.identityDeleted i.name]

/-- `cert_insert_trigger`, if there is a new row. -/
def certificatesInserted (certificate : IdentityCertificate) (db : Db) : List Signal :=
  if ¬ db.hasCertificate certificate.name ∧ (db.addCertificate certificate).hasCertificate certificate.name then
    [.certificateInserted certificate.name]
  else []

end Db

/-- The signals of an operation, in their order. -/
def Operation.signals (db : Db) : Operation → List Signal
  | .deleteIdentity identity => db.identitiesDeleted identity
  | .deleteKey keyName => db.keysDeleted fun k => k.name = keyName
  | .addCertificate certificate => db.certificatesInserted certificate
  | .deleteCertificate certificateName => db.certificatesDeleted fun c => c.name = certificateName
  | _ => []

variable {db : Db} {n : Name}

/-! ## Deleted keys -/

theorem keyDeleted_mem_keysDeleted {p : DefaultTable.Row ℕ Name PublicKey → Bool} :
    Signal.keyDeleted n ∈ db.keysDeleted p ↔ ∃ k ∈ db.keys, p k = true ∧ k.name = n := by
  simp only [Db.keysDeleted, Db.certificatesDeleted, List.mem_flatMap, List.mem_filter, List.mem_append, List.mem_map,
    reduceCtorEq, and_false, exists_false, false_or, List.mem_singleton, Signal.keyDeleted.injEq, and_assoc, eq_comm]

theorem keyDeleted_mem_identitiesDeleted {identity : Name} :
    Signal.keyDeleted n ∈ db.identitiesDeleted identity ↔
      ∃ i ∈ db.identities, i.name = identity ∧ ∃ k ∈ db.keys, k.scope = i.id ∧ k.name = n := by
  simp only [Db.identitiesDeleted, List.mem_flatMap, List.mem_filter, decide_eq_true_eq, List.mem_append,
    keyDeleted_mem_keysDeleted, List.mem_singleton, reduceCtorEq, or_false, and_assoc]

theorem getKey_eq_some (h : db.Integrity) {key : PublicKey} :
    db.getKey n = some key ↔ ∃ k ∈ db.keys, k.name = n ∧ k.data = key := by
  unfold Db.getKey
  rw [Option.map_eq_some_iff]
  constructor
  · rintro ⟨k, hk, hd⟩
    exact ⟨k, (DefaultTable.mem_of_row hk).1, (DefaultTable.mem_of_row hk).2, hd⟩
  · rintro ⟨k, hk, rfl, hd⟩
    exact ⟨k, h.keys.row_of_mem hk, hd⟩

theorem mem_keys_of_addKey (h : db.Integrity) {k : DefaultTable.Row ℕ Name PublicKey} (hk : k ∈ db.keys)
    (key : PublicKey) : k ∈ (db.addKey n key).keys := by
  unfold Db.addKey
  split
  · exact hk
  · unfold Db.insertKey
    split
    · rw [Db.ensureIdentity_keys]
      exact hk
    · rw [Db.ensureIdentity_keys]
      exact DefaultTable.mem_insertRow_of_mem h.keys hk

theorem mem_keys_of_addCertificate (h : db.Integrity) {k : DefaultTable.Row ℕ Name PublicKey} (hk : k ∈ db.keys)
    (cert : IdentityCertificate) : k ∈ (db.addCertificate cert).keys := by
  unfold Db.addCertificate
  rw [Db.insertCertificate_keys]
  unfold Db.ensureKey
  split
  · exact hk
  · exact mem_keys_of_addKey h hk _

/-- An operation takes the key of a name only if it reports that. -/
theorem getKey_apply (h : db.Integrity) {o : Operation} {key : PublicKey} (hkey : db.getKey n = some key)
    (hno : Signal.keyDeleted n ∉ o.signals db) : (o.apply db).getKey n = some key := by
  obtain ⟨k, hk, hn, hd⟩ := (getKey_eq_some h).1 hkey
  rw [getKey_eq_some (integrity_apply h o)]
  cases o with
  | addIdentity identity => exact ⟨k, hk, hn, hd⟩
  | deleteIdentity identity =>
    refine ⟨k, DefaultTable.mem_deleteWhere.2 ⟨hk, decide_eq_false ?_⟩, hn, hd⟩
    rintro ⟨i, hi, hin, hid⟩
    exact hno (keyDeleted_mem_identitiesDeleted.2 ⟨i, hi, hin, k, hk, hid.symm, hn⟩)
  | setDefaultIdentity identity => exact ⟨k, hk, hn, hd⟩
  | addKey keyName bits => exact ⟨k, mem_keys_of_addKey h hk bits, hn, hd⟩
  | deleteKey keyName =>
    refine ⟨k, DefaultTable.mem_deleteWhere.2 ⟨hk, decide_eq_false fun he => ?_⟩, hn, hd⟩
    exact hno (keyDeleted_mem_keysDeleted.2 ⟨k, hk, decide_eq_true he, hn⟩)
  | setDefaultKeyNameOfIdentity keyName =>
    obtain ⟨l, hl, -, -, hln, hld⟩ := DefaultTable.mem_setDefault_of_mem h.keys hk keyName
    exact ⟨l, hl, hln.symm.trans hn, hld.symm.trans hd⟩
  | addCertificate certificate => exact ⟨k, mem_keys_of_addCertificate h hk certificate, hn, hd⟩
  | deleteCertificate certificateName => exact ⟨k, hk, hn, hd⟩
  | setDefaultCertNameOfKey certificateName => exact ⟨k, hk, hn, hd⟩

end NdnTools.Pib
