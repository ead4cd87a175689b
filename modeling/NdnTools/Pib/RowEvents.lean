/-
An operation on the database, as the publisher of its certificates sees it: row by row. The rows that
the signals report are those by which the table differs afterwards, each deleted row is reported once,
and an inserted one has a new name.
-/
import NdnTools.Pib.CertPublisher

namespace NdnTools.Pib

variable [Certificates] {db : Db} {s : PublishedTable} {ns : List Name} {n : Name}

/-! ## Deleted rows -/

/-- The names of the certificates that `keysDeleted` reports. -/
def certNamesOfKeys (p : DefaultTable.Row ℕ Name PublicKey → Bool) (db : Db) : List Name :=
  (db.keys.filter p).flatMap fun k => (db.certificates.filter fun c => c.scope = k.id).map fun c => c.name

/-- And those that `identitiesDeleted` reports. -/
def certNamesOfIdentity (identity : Name) (db : Db) : List Name :=
  (db.identities.filter fun i => i.name = identity).flatMap fun i => certNamesOfKeys (fun k => k.scope = i.id) db

theorem rowEvents_certificatesDeleted (db' : Db) (p : DefaultTable.Row ℕ Name IdentityCertificate → Bool) :
    (db.certificatesDeleted p).filterMap (Signal.rowEvent db') =
      ((db.certificates.filter p).map fun c => c.name).map .deleted := by
  unfold Db.certificatesDeleted
  rw [List.filterMap_map, List.map_map]
  exact congrFun (List.filterMap_eq_map
    (f := fun c : DefaultTable.Row ℕ Name IdentityCertificate => PublisherEvent.deleted c.name)) _

theorem rowEvents_keysDeleted (db' : Db) (p : DefaultTable.Row ℕ Name PublicKey → Bool) :
    (db.keysDeleted p).filterMap (Signal.rowEvent db') = (certNamesOfKeys p db).map .deleted := by
  unfold Db.keysDeleted certNamesOfKeys
  rw [List.filterMap_flatMap, List.map_flatMap]
  congr 1
  funext k
  rw [List.filterMap_append, rowEvents_certificatesDeleted]
  exact List.append_nil _

theorem rowEvents_identitiesDeleted (db' : Db) (identity : Name) :
    (db.identitiesDeleted identity).filterMap (Signal.rowEvent db') =
      (certNamesOfIdentity identity db).map .deleted := by
  unfold Db.identitiesDeleted certNamesOfIdentity
  rw [List.filterMap_flatMap, List.map_flatMap]
  congr 1
  funext i
  rw [List.filterMap_append, rowEvents_keysDeleted]
  exact List.append_nil _

theorem mem_certNamesOfKeys {p : DefaultTable.Row ℕ Name PublicKey → Bool} :
    n ∈ certNamesOfKeys p db ↔ ∃ k ∈ db.keys, p k = true ∧ ∃ c ∈ db.certificates, c.scope = k.id ∧ c.name = n := by
  simp only [certNamesOfKeys, List.mem_flatMap, List.mem_filter, List.mem_map, decide_eq_true_eq, and_assoc]

theorem mem_certNamesOfIdentity {identity : Name} :
    n ∈ certNamesOfIdentity identity db ↔ ∃ i ∈ db.identities, i.name = identity ∧
      ∃ k ∈ db.keys, k.scope = i.id ∧ ∃ c ∈ db.certificates, c.scope = k.id ∧ c.name = n := by
  simp only [certNamesOfIdentity, List.mem_flatMap, List.mem_filter, mem_certNamesOfKeys, decide_eq_true_eq,
    and_assoc]

/-- Each certificate is reported once. -/
theorem nodup_certNamesOfKeys (h : db.Integrity) (p : DefaultTable.Row ℕ Name PublicKey → Bool) :
    (certNamesOfKeys p db).Nodup := by
  refine List.nodup_flatMap.2 ⟨fun k _ => (List.filter_sublist.map _).nodup h.certificates.names, ?_⟩
  refine (h.keys.pairwise_id p).imp fun {k l} hne n hk hl => ?_
  obtain ⟨c, hc, rfl⟩ := List.mem_map.1 hk
  obtain ⟨d, hd, hdn⟩ := List.mem_map.1 hl
  obtain ⟨hc, hck⟩ := List.mem_filter.1 hc
  obtain ⟨hd, hdl⟩ := List.mem_filter.1 hd
  rw [h.certificates.eq_of_name hd hc hdn] at hdl
  exact hne ((of_decide_eq_true hck).symm.trans (of_decide_eq_true hdl))

theorem nodup_certNamesOfIdentity (h : db.Integrity) (identity : Name) :
    (certNamesOfIdentity identity db).Nodup := by
  refine List.nodup_flatMap.2 ⟨fun i _ => nodup_certNamesOfKeys h _, ?_⟩
  refine (h.identities.pairwise_id _).imp fun {i j} hne n hi hj => ?_
  obtain ⟨k, hk, hki, c, hc, hck, rfl⟩ := mem_certNamesOfKeys.1 hi
  obtain ⟨l, hl, hlj, d, hd, hdl, hdn⟩ := mem_certNamesOfKeys.1 hj
  rw [h.certificates.eq_of_name hd hc hdn] at hdl
  rw [h.keys.eq_of_id hl hk (hdl.symm.trans hck)] at hlj
  exact hne ((of_decide_eq_true hki).symm.trans (of_decide_eq_true hlj))

/-! ## What the events do to the table -/

theorem certificates_exec_deleted (s : PublishedTable) (ns : List Name) :
    (publisherMachine.exec s (ns.map .deleted)).certificates = s.certificates.filter fun c => c.name ∉ ns := by
  induction ns generalizing s with
  | nil => simp
  | cons n ns ih =>
    rw [List.map_cons, Machine.exec_cons, ih]
    change (s.certificates.filter fun c => c.name ≠ n).filter _ = _
    rw [List.filter_filter]
    refine List.filter_congr fun c _ => ?_
    simp only [List.mem_cons, not_or, ← Bool.decide_and, and_comm]

theorem runs_deleted (hnd : ns.Nodup) (hmem : ∀ n ∈ ns, ∃ c ∈ s.certificates, c.name = n) :
    publisherMachine.Runs s (ns.map .deleted) := by
  induction ns generalizing s with
  | nil => trivial
  | cons n ns ih =>
    obtain ⟨hn, hnd⟩ := List.nodup_cons.1 hnd
    refine ⟨hmem n List.mem_cons_self, ih hnd fun m hm => ?_⟩
    obtain ⟨c, hc, rfl⟩ := hmem m (List.mem_cons_of_mem _ hm)
    exact ⟨c, List.mem_filter.2 ⟨hc, decide_eq_true fun he => hn (by rw [← he]; exact hm)⟩, rfl⟩

/-- The certificates that are not among those of the names are those of the rows that are left. -/
theorem certificateData_deleteWhere (h : db.Integrity) {P : DefaultTable.Row ℕ Name IdentityCertificate → Bool}
    (hns : ∀ n, n ∈ ns ↔ ∃ c ∈ db.certificates, P c = true ∧ c.name = n) :
    db.certificateData.filter (fun c => c.name ∉ ns) = (db.certificates.deleteWhere P).map fun c => c.data := by
  unfold Db.certificateData DefaultTable.deleteWhere
  rw [List.filter_map]
  congr 1
  refine List.filter_congr fun c hc => ?_
  have hmem : c.data.name ∈ ns ↔ P c = true := by
    rw [← (h.certOf c hc).1, hns]
    constructor
    · rintro ⟨d, hd, hP, hn⟩
      rw [h.certificates.eq_of_name hc hd hn.symm]
      exact hP
    · exact fun hP => ⟨c, hc, hP, rfl⟩
  cases hP : P c <;> simp [hmem, hP]

/-- Deleting rows by name, one after the other. -/
theorem deleted_spec (h : db.Integrity) (hs : s.certificates = db.certificateData) (hnd : ns.Nodup)
    {P : DefaultTable.Row ℕ Name IdentityCertificate → Bool}
    (hns : ∀ n, n ∈ ns ↔ ∃ c ∈ db.certificates, P c = true ∧ c.name = n) :
    publisherMachine.Runs s (ns.map .deleted) ∧ (publisherMachine.exec s (ns.map .deleted)).certificates =
      (db.certificates.deleteWhere P).map fun c => c.data := by
  refine ⟨runs_deleted hnd fun n hn => ?_, ?_⟩
  · obtain ⟨c, hc, -, rfl⟩ := (hns n).1 hn
    rw [hs]
    exact ⟨c.data, List.mem_map_of_mem hc, (h.certOf c hc).1.symm⟩
  · rw [certificates_exec_deleted, hs]
    exact certificateData_deleteWhere h hns

/-! ## Inserted rows -/

/-- A certificate is added in a row of its own, or not at all. -/
theorem certificates_addCertificate (h : db.Integrity) (cert : IdentityCertificate) :
    (db.addCertificate cert).certificates = db.certificates ∨
      (¬ db.hasCertificate cert.name ∧ ∃ r : DefaultTable.Row ℕ Name IdentityCertificate,
        r.name = cert.name ∧ r.data = cert ∧ (db.addCertificate cert).certificates = db.certificates ++ [r]) := by
  unfold Db.addCertificate Db.insertCertificate
  split
  · exact .inl Db.ensureKey_certificates
  · rw [Db.ensureKey_certificates]
    by_cases hhas : db.hasCertificate cert.name
    · exact .inl (DefaultTable.insertRow_of_has hhas)
    · obtain ⟨flag, heq⟩ := DefaultTable.insertRow_of_new h.certificates hhas _ cert
      exact .inr ⟨hhas, _, rfl, rfl, heq⟩

theorem rowEvents_addCertificate_of_same {cert : IdentityCertificate}
    (heq : (db.addCertificate cert).certificates = db.certificates) :
    (Operation.addCertificate cert).rowEvents db = [] := by
  have hsame : (db.addCertificate cert).hasCertificate cert.name ↔ db.hasCertificate cert.name := by
    unfold Db.hasCertificate
    rw [heq]
  have hsignals : (Operation.addCertificate cert).signals db = [] :=
    if_neg fun hnew => hnew.1 (hsame.1 hnew.2)
  unfold Operation.rowEvents
  rw [hsignals, List.filterMap_nil]

theorem rowEvents_addCertificate_of_new {cert : IdentityCertificate} {r : DefaultTable.Row ℕ Name IdentityCertificate}
    (h : db.Integrity) (hno : ¬ db.hasCertificate cert.name) (hrn : r.name = cert.name) (hrd : r.data = cert)
    (heq : (db.addCertificate cert).certificates = db.certificates ++ [r]) :
    (Operation.addCertificate cert).rowEvents db = [.inserted cert] := by
  have hr : r ∈ (db.addCertificate cert).certificates := by
    rw [heq]
    exact List.mem_append_right _ (List.mem_singleton_self r)
  have hrow := (Db.integrity_addCertificate h cert).certificates.row_of_mem hr
  rw [hrn] at hrow
  have hsignals : (Operation.addCertificate cert).signals db = [.certificateInserted cert.name] :=
    if_pos ⟨hno, r, hr, hrn⟩
  have hevent : Signal.rowEvent (db.addCertificate cert) (.certificateInserted cert.name) =
      some (.inserted cert) := by
    simp only [Signal.rowEvent, hrow, Option.map_some, hrd]
  unfold Operation.rowEvents
  rw [hsignals]
  exact List.filterMap_cons_some hevent

theorem inserted_spec (h : db.Integrity) (hs : s.certificates = db.certificateData) (cert : IdentityCertificate) :
    publisherMachine.Runs s ((Operation.addCertificate cert).rowEvents db) ∧
      (publisherMachine.exec s ((Operation.addCertificate cert).rowEvents db)).certificates =
        (db.addCertificate cert).certificateData := by
  rcases certificates_addCertificate h cert with heq | ⟨hno, r, hrn, hrd, heq⟩
  · rw [rowEvents_addCertificate_of_same heq]
    refine ⟨trivial, hs.trans ?_⟩
    unfold Db.certificateData
    rw [heq]
  · rw [rowEvents_addCertificate_of_new h hno hrn hrd heq]
    refine ⟨⟨fun c hc hn => hno ?_, trivial⟩, ?_⟩
    · rw [hs] at hc
      obtain ⟨q, hq, rfl⟩ := List.mem_map.1 hc
      exact ⟨q, hq, (h.certOf q hq).1.trans hn⟩
    · change s.certificates ++ [cert] = _
      unfold Db.certificateData
      rw [hs, heq, List.map_append, List.map_singleton, hrd]
      rfl

/-! ## Operations -/

/-- The events of an operation are possible, and lead from its table to the table afterwards. -/
theorem rowEvents_spec (h : db.Integrity) (hs : s.certificates = db.certificateData) (o : Operation) :
    publisherMachine.Runs s (o.rowEvents db) ∧
      (publisherMachine.exec s (o.rowEvents db)).certificates = (o.apply db).certificateData := by
  cases o with
  | addIdentity identity => exact ⟨trivial, hs⟩
  | deleteIdentity identity =>
    unfold Operation.rowEvents Operation.signals
    rw [rowEvents_identitiesDeleted]
    refine deleted_spec h hs (nodup_certNamesOfIdentity h identity) fun n => ?_
    rw [mem_certNamesOfIdentity]
    constructor
    · rintro ⟨i, hi, hin, k, hk, hki, c, hc, hck, rfl⟩
      exact ⟨c, hc, decide_eq_true ⟨k, hk, decide_eq_true ⟨i, hi, hin, hki.symm⟩, hck.symm⟩, rfl⟩
    · rintro ⟨c, hc, hP, rfl⟩
      obtain ⟨k, hk, hki, hck⟩ := of_decide_eq_true hP
      obtain ⟨i, hi, hin, hid⟩ := of_decide_eq_true hki
      exact ⟨i, hi, hin, k, hk, hid.symm, c, hc, hck.symm, rfl⟩
  | setDefaultIdentity identity => exact ⟨trivial, hs⟩
  | addKey keyName key =>
    refine ⟨trivial, hs.trans ?_⟩
    unfold Db.certificateData
    exact congrArg _ Db.addKey_certificates.symm
  | deleteKey keyName =>
    unfold Operation.rowEvents Operation.signals
    rw [rowEvents_keysDeleted]
    refine deleted_spec h hs (nodup_certNamesOfKeys h _) fun n => ?_
    rw [mem_certNamesOfKeys]
    constructor
    · rintro ⟨k, hk, hkn, c, hc, hck, rfl⟩
      exact ⟨c, hc, decide_eq_true ⟨k, hk, hkn, hck.symm⟩, rfl⟩
    · rintro ⟨c, hc, hP, rfl⟩
      obtain ⟨k, hk, hkn, hck⟩ := of_decide_eq_true hP
      exact ⟨k, hk, hkn, c, hc, hck.symm, rfl⟩
  | setDefaultKeyNameOfIdentity keyName => exact ⟨trivial, hs⟩
  | addCertificate certificate => exact inserted_spec h hs certificate
  | deleteCertificate certificateName =>
    unfold Operation.rowEvents Operation.signals
    rw [rowEvents_certificatesDeleted]
    refine deleted_spec h hs ((List.filter_sublist.map _).nodup h.certificates.names) fun n => ?_
    simp only [List.mem_map, List.mem_filter, and_assoc]
  | setDefaultCertNameOfKey certificateName =>
    refine ⟨trivial, hs.trans ?_⟩
    exact (DefaultTable.map_data_setDefault h.certificates certificateName).symm

/-! ## The publisher on its database -/

/-- Operations and answers of the Face, with the publisher following row by row. -/
def publishedDb : Machine (Db × PublishedTable) PublisherAction where
  enabled s
    | .operation _ => True
    | .registered f => f ∈ s.2.publisher.pending
    | .failed f => f ∈ s.2.publisher.pending
  step s a := (a.apply s.1, publisherMachine.exec s.2 (a.events s.1))

instance (s : Db × PublishedTable) : (a : PublisherAction) → Decidable (publishedDb.enabled s a)
  | .operation _ => isTrue trivial
  | .registered f => inferInstanceAs (Decidable (f ∈ s.2.publisher.pending))
  | .failed f => inferInstanceAs (Decidable (f ∈ s.2.publisher.pending))

/-- In a run the table is that of the database, and its events are a run. -/
theorem publishedDb_spec (as : List PublisherAction) :
    ∀ {db : Db} {s : PublishedTable}, db.Integrity → s.certificates = db.certificateData →
      publishedDb.Runs (db, s) as →
      publisherMachine.Runs s (actionEvents db as) ∧
        publishedDb.Always (fun t => t.2.certificates = t.1.certificateData) (db, s) as := by
  induction as with
  | nil => exact fun _ hs _ => ⟨trivial, hs⟩
  | cons a as ih =>
    rintro db s h hs ⟨ha, has⟩
    have hstep : publisherMachine.Runs s (a.events db) ∧
        (publisherMachine.exec s (a.events db)).certificates = (a.apply db).certificateData := by
      cases a with
      | operation o => exact rowEvents_spec h hs o
      | registered f => exact ⟨⟨ha, trivial⟩, hs⟩
      | failed f => exact ⟨⟨ha, trivial⟩, hs⟩
    have hdb : (a.apply db).Integrity := by
      cases a with
      | operation o => exact integrity_apply h o
      | registered f => exact h
      | failed f => exact h
    obtain ⟨hruns, halways⟩ := ih hdb hstep.2 has
    exact ⟨(publisherMachine.runs_append _ _ _).2 ⟨hstep.1, hruns⟩, hs, halways⟩

end NdnTools.Pib
