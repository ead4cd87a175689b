/-
What the PIB is for: it holds identities, keys under identities and certificates under keys, each found
by its name. `Contents` can hold no key without its identity and no certificate without its key; which
entities are defaults is not part of it.

The contents of the database are those that the accepted commands make, in their order: neither the
signers nor the requests for defaults nor the other commands leave a trace.
-/
import NdnTools.Pib.Stored

namespace NdnTools.Pib

variable [Certificates]

@[ext]
structure Contents where
  identities : Set Name
  keys : Name → Option PublicKey
  certificates : Name → Option IdentityCertificate
  identityOf : ∀ {n key}, keys n = some key → n ≠ [] ∧ getPrefix n ∈ identities
  keyOf : ∀ {n cert}, certificates n = some cert → cert.name = n ∧ (keys cert.publicKeyName).isSome = true

namespace Contents

def empty : Contents := ⟨∅, fun _ => none, fun _ => none, nofun, nofun⟩

/-! ## Insertion -/

def addIdentity (identity : Name) (c : Contents) : Contents where
  identities := insert identity c.identities
  keys := c.keys
  certificates := c.certificates
  identityOf h := ⟨(c.identityOf h).1, .inr (c.identityOf h).2⟩
  keyOf := c.keyOf

/-- The key with its identity, if it has a name; a key that is there stays as it is. -/
def addKey (keyName : Name) (key : PublicKey) (c : Contents) : Contents :=
  if hne : keyName = [] then c else
    { identities := insert (getPrefix keyName) c.identities
      keys := Function.update c.keys keyName (some ((c.keys keyName).getD key))
      certificates := c.certificates
      identityOf := fun {n k} h => by
        by_cases hn : n = keyName
        · subst hn; exact ⟨hne, .inl rfl⟩
        · rw [Function.update_of_ne hn] at h
          exact ⟨(c.identityOf h).1, .inr (c.identityOf h).2⟩
      keyOf := fun {n cert} h => by
        obtain ⟨hname, hkey⟩ := c.keyOf h
        refine ⟨hname, ?_⟩
        by_cases hn : cert.publicKeyName = keyName
        · rw [hn, Function.update_self]; rfl
        · rw [Function.update_of_ne hn]; exact hkey }

theorem isSome_addKey {keyName : Name} (hne : keyName ≠ []) (key : PublicKey) (c : Contents) :
    ((c.addKey keyName key).keys keyName).isSome = true := by
  unfold addKey
  rw [dif_neg hne]
  simp

theorem addKey_of_isSome {keyName : Name} {c : Contents} (h : (c.keys keyName).isSome = true) (key : PublicKey) :
    c.addKey keyName key = c := by
  obtain ⟨old, hold⟩ := Option.isSome_iff_exists.1 h
  obtain ⟨hne, hidentity⟩ := c.identityOf hold
  have hkeys : Function.update c.keys keyName (some ((c.keys keyName).getD key)) = c.keys := by
    rw [hold]
    exact Function.update_eq_self_iff.2 hold.symm
  unfold addKey
  rw [dif_neg hne]
  exact Contents.ext (Set.insert_eq_of_mem hidentity) hkeys rfl

/-- The certificate with its key, if that has a name; a certificate that is there stays as it is. -/
def addCertificate (certificate : IdentityCertificate) (c : Contents) : Contents :=
  if hne : certificate.publicKeyName = [] then c else
    { c.addKey certificate.publicKeyName certificate.publicKeyInfo with
      certificates := Function.update c.certificates certificate.name
        (some ((c.certificates certificate.name).getD certificate))
      keyOf := fun {n cert} h => by
        have hkeyOf : ∀ {m : Name} {d : IdentityCertificate}, c.certificates m = some d → d.name = m ∧
            ((c.addKey certificate.publicKeyName certificate.publicKeyInfo).keys d.publicKeyName).isSome = true := by
          intro m d hd
          refine (c.addKey certificate.publicKeyName certificate.publicKeyInfo).keyOf (Eq.trans ?_ hd)
          unfold addKey
          rw [dif_neg hne]
        by_cases hn : n = certificate.name
        · subst hn
          rw [Function.update_self] at h
          cases hold : c.certificates certificate.name with
          | none =>
            rw [hold] at h
            cases h
            exact ⟨rfl, isSome_addKey hne _ c⟩
          | some d =>
            rw [hold] at h
            cases h
            exact hkeyOf hold
        · rw [Function.update_of_ne hn] at h
          exact hkeyOf h }

/-! ## Deletion -/

def deleteCertificate (certificateName : Name) (c : Contents) : Contents where
  identities := c.identities
  keys := c.keys
  certificates := Function.update c.certificates certificateName none
  identityOf := c.identityOf
  keyOf {n cert} h := by
    by_cases hn : n = certificateName
    · subst hn
      rw [Function.update_self] at h
      cases h
    · rw [Function.update_of_ne hn] at h
      exact c.keyOf h

/-- The keys whose names pass a test, with their certificates. -/
def deleteKeys (p : Name → Bool) (c : Contents) : Contents where
  identities := c.identities
  keys n := (c.keys n).filter fun _ => !p n
  certificates n := (c.certificates n).filter fun cert => !p cert.publicKeyName
  identityOf h := c.identityOf (Option.filter_eq_some_iff.1 h).1
  keyOf {n cert} h := by
    obtain ⟨h, hp⟩ := Option.filter_eq_some_iff.1 h
    obtain ⟨hname, hkey⟩ := c.keyOf h
    obtain ⟨key, hkey⟩ := Option.isSome_iff_exists.1 hkey
    exact ⟨hname, by simp only [hkey, Option.filter_some, hp, if_true, Option.isSome_some]⟩

def deleteKey (keyName : Name) (c : Contents) : Contents := c.deleteKeys (decide <| · = keyName)

/-- The identity with its keys. -/
def deleteIdentity (identity : Name) (c : Contents) : Contents :=
  { c.deleteKeys (fun n => getPrefix n = identity) with
    identities := c.identities \ {identity}
    identityOf := fun {n key} h => by
      obtain ⟨h, hp⟩ := Option.filter_eq_some_iff.1 h
      exact ⟨(c.identityOf h).1, (c.identityOf h).2, by simpa using hp⟩ }

/-- What an accepted command does. -/
def apply (c : Contents) : Command → Contents
  | .update ⟨.user _, _⟩ => c
  | .update ⟨.identity identity, _⟩ => c.addIdentity identity
  | .update ⟨.publicKey keyName key, _⟩ => c.addKey keyName key
  | .update ⟨.certificate certificate, _⟩ => c.addCertificate certificate
  | .delete param =>
    match param.targetType with
    | 1 => c.deleteIdentity param.targetName
    | 2 => c.deleteKey param.targetName
    | 3 => c.deleteCertificate param.targetName
    | _ => c

end Contents

/-- The key that a command adds. -/
def Command.newKey : Command → Option PublicKey
  | .update ⟨.publicKey _ key, _⟩ => some key
  | .update ⟨.certificate certificate, _⟩ => some certificate.publicKeyInfo
  | _ => none

namespace Contents

variable {c : Contents} {n : Name} {key : PublicKey}

theorem keys_addKey {keyName : Name} {newKey : PublicKey} (h : (c.addKey keyName newKey).keys n = some key) :
    c.keys n = some key ∨ newKey = key := by
  unfold addKey at h
  split at h
  · exact .inl h
  by_cases hn : n = keyName
  · subst hn
    cases hold : c.keys n with
    | none =>
      simp only [hold, Function.update_self, Option.getD_none, Option.some.injEq] at h
      exact .inr h
    | some old =>
      simp only [hold, Function.update_self, Option.getD_some] at h
      exact .inl h
  · simp only [Function.update_of_ne hn] at h
    exact .inl h

theorem keys_deleteKeys {p : Name → Bool} (h : (c.deleteKeys p).keys n = some key) : c.keys n = some key :=
  (Option.filter_eq_some_iff.1 h).1

/-- A key that is there after a command was there before, or is that of the command. -/
theorem keys_apply {command : Command} (h : (c.apply command).keys n = some key) :
    c.keys n = some key ∨ command.newKey = some key := by
  obtain ⟨⟨entity, defaultOpt⟩⟩ | ⟨_ | _ | _ | _ | targetType, targetName⟩ := command
  · cases entity with
    | user mgmtCert => exact .inl h
    | identity identity => exact .inl h
    | publicKey keyName newKey => exact (keys_addKey h).imp_right (congrArg some)
    | certificate certificate =>
      have h : (c.addCertificate certificate).keys n = some key := h
      unfold addCertificate at h
      split at h
      · exact .inl h
      · exact (keys_addKey h).imp_right (congrArg some)
  · exact .inl h
  · exact .inl (keys_deleteKeys (p := fun n => getPrefix n = targetName) h)
  · exact .inl (keys_deleteKeys (p := fun n => n = targetName) h)
  · exact .inl h
  · exact .inl h

end Contents

/-! ## The contents of a database -/

namespace Db

open UpdateQueryProcessor (setKeyDefault setIdDefault setUserDefault)

variable {db db' : Db}

def contents (db : Db) (h : db.Integrity) : Contents where
  identities := {n | db.hasIdentity n}
  keys n := db.getKey n
  certificates n := db.getCertificate n
  identityOf {n key} hkey := by
    obtain ⟨k, hk, rfl, -⟩ := h.keys.data_row.1 hkey
    obtain ⟨hne, i, hi, -, hin⟩ := h.keyOf k hk
    exact ⟨hne, i, hi, hin⟩
  keyOf {n cert} hcert := by
    obtain ⟨c, hc, rfl, rfl⟩ := h.certificates.data_row.1 hcert
    obtain ⟨hname, k, hk, -, hkn⟩ := h.certOf c hc
    refine ⟨hname.symm, ?_⟩
    rw [← hkn, getKey, h.keys.row_of_mem hk]
    rfl

/-- The contents are told by what is found. -/
theorem contents_ext {h : db.Integrity} {c : Contents} (hi : ∀ n, db.hasIdentity n ↔ n ∈ c.identities)
    (hk : ∀ n, db.getKey n = c.keys n) (hc : ∀ n, db.getCertificate n = c.certificates n) : db.contents h = c :=
  Contents.ext (Set.ext hi) (funext hk) (funext hc)

theorem contents_congr {h : db.Integrity} {h' : db'.Integrity} (hi : ∀ n, db'.hasIdentity n ↔ db.hasIdentity n)
    (hk : ∀ n, db'.getKey n = db.getKey n) (hc : ∀ n, db'.getCertificate n = db.getCertificate n) :
    db'.contents h' = db.contents h :=
  contents_ext hi hk hc

/-! ## Insertion -/

theorem contents_addIdentity (h : db.Integrity) (n : Name) :
    (db.addIdentity n).contents (integrity_addIdentity h n) = (db.contents h).addIdentity n := by
  refine contents_ext (fun m => ?_) (fun _ => rfl) fun _ => rfl
  constructor
  · rintro ⟨i, hi, rfl⟩
    rcases DefaultTable.mem_insertRow h.identities hi with hi | ⟨-, -, heq, -⟩
    · exact .inr ⟨i, hi, rfl⟩
    · exact .inl heq
  · rintro (rfl | ⟨i, hi, rfl⟩)
    · exact DefaultTable.has_insertRow h.identities
    · exact ⟨i, DefaultTable.mem_insertRow_of_mem h.identities hi, rfl⟩

theorem hasIdentity_ensureIdentity_iff (h : db.Integrity) (n m : Name) :
    (db.ensureIdentity n).hasIdentity m ↔ m = n ∨ db.hasIdentity m := by
  unfold ensureIdentity
  split
  · rename_i hhas
    exact ⟨.inr, fun hm => hm.elim (fun heq => heq ▸ hhas) id⟩
  · have heq := congrArg Contents.identities (contents_addIdentity h n)
    exact Set.ext_iff.1 heq m

theorem getKey_insertKey_of_ne (h : db.Integrity) {n m : Name} (hne : m ≠ n) (key : PublicKey) :
    (db.insertKey n key).getKey m = db.getKey m := by
  unfold insertKey
  split
  · rfl
  · exact DefaultTable.data_insertRow_of_ne h.keys hne

theorem contents_addKey (h : db.Integrity) (n : Name) (key : PublicKey) :
    (db.addKey n key).contents (integrity_addKey h n key) = (db.contents h).addKey n key := by
  by_cases hne : n = []
  · subst hne
    unfold Contents.addKey
    rw [dif_pos rfl]
    exact contents_ext (fun _ => Iff.rfl) (fun _ => rfl) fun _ => rfl
  · have heq : db.addKey n key = (db.ensureIdentity (getPrefix n)).insertKey n key := if_neg hne
    unfold Contents.addKey
    rw [dif_neg hne]
    refine contents_ext (fun m => ?_) (fun m => ?_) fun m => ?_
    · rw [heq]
      unfold hasIdentity
      rw [insertKey_identities]
      exact hasIdentity_ensureIdentity_iff h _ m
    · by_cases hm : m = n
      · subst hm
        exact (getKey_addKey h hne).trans (Function.update_self m _ (db.contents h).keys).symm
      · rw [heq, getKey_insertKey_of_ne (integrity_ensureIdentity h _) hm]
        unfold getKey
        rw [ensureIdentity_keys]
        exact (Function.update_of_ne hm _ (db.contents h).keys).symm
    · unfold getCertificate
      rw [addKey_certificates]
      rfl

theorem hasKey_iff (db : Db) (n : Name) : db.hasKey n ↔ (db.getKey n).isSome = true := by
  unfold getKey
  rw [Option.isSome_map]
  constructor
  · intro h
    obtain ⟨k, -, hrow, -⟩ := DefaultTable.row_of_has h
    rw [hrow]
    rfl
  · intro h
    obtain ⟨k, hk⟩ := Option.isSome_iff_exists.1 h
    exact ⟨k, DefaultTable.mem_of_row hk⟩

theorem contents_ensureKey (h : db.Integrity) (n : Name) (key : PublicKey) :
    (db.ensureKey n key).contents (integrity_ensureKey h n key) = (db.contents h).addKey n key := by
  by_cases hhas : db.hasKey n
  · rw [Contents.addKey_of_isSome (c := db.contents h) ((hasKey_iff db n).1 hhas) key]
    have heq : db.ensureKey n key = db := if_pos hhas
    exact contents_congr (by simp [heq]) (by simp [heq]) (by simp [heq])
  · rw [← contents_addKey h n key]
    have heq : db.ensureKey n key = db.addKey n key := if_neg hhas
    exact contents_congr (by simp [heq]) (by simp [heq]) (by simp [heq])

theorem getCertificate_insertCertificate_of_ne (h : db.Integrity) {cert : IdentityCertificate} {m : Name}
    (hne : m ≠ cert.name) : (db.insertCertificate cert).getCertificate m = db.getCertificate m := by
  unfold insertCertificate
  split
  · rfl
  · exact DefaultTable.data_insertRow_of_ne h.certificates hne

theorem contents_addCertificate (h : db.Integrity) (cert : IdentityCertificate) :
    (db.addCertificate cert).contents (integrity_addCertificate h cert) = (db.contents h).addCertificate cert := by
  have hkey := contents_ensureKey h cert.publicKeyName cert.publicKeyInfo
  have h' := integrity_ensureKey h cert.publicKeyName cert.publicKeyInfo
  unfold Contents.addCertificate
  by_cases hne : cert.publicKeyName = []
  · -- neither the key nor the certificate is added
    have hensure : db.ensureKey cert.publicKeyName cert.publicKeyInfo = db := by
      unfold ensureKey addKey
      rw [if_neg (by rw [hne]; exact h.not_hasKey_nil), if_pos hne]
    have hid : db.keyId cert.publicKeyName = none := by
      unfold keyId
      rw [DefaultTable.row_eq_none (by rw [hne]; exact h.not_hasKey_nil)]
      rfl
    have heq : db.addCertificate cert = db := by
      unfold addCertificate insertCertificate
      rw [hensure, hid]
    rw [dif_pos hne]
    exact contents_congr (by simp [heq]) (by simp [heq]) (by simp [heq])
  · rw [dif_neg hne]
    refine contents_ext (fun m => ?_) (fun m => ?_) fun m => ?_
    · unfold addCertificate hasIdentity
      rw [insertCertificate_identities]
      exact Set.ext_iff.1 (congrArg Contents.identities hkey) m
    · unfold addCertificate getKey
      rw [insertCertificate_keys]
      exact congrFun (congrArg Contents.keys hkey) m
    · by_cases hm : m = cert.name
      · subst hm
        exact (getCertificate_addCertificate h hne).trans
          (Function.update_self cert.name _ (db.contents h).certificates).symm
      · unfold addCertificate
        rw [getCertificate_insertCertificate_of_ne h' hm]
        unfold getCertificate
        rw [ensureKey_certificates]
        exact (Function.update_of_ne hm _ (db.contents h).certificates).symm

/-! ## Deletion -/

theorem contents_deleteCertificate (h : db.Integrity) (n : Name) :
    (db.deleteCertificate n).contents (integrity_deleteCertificate h n) = (db.contents h).deleteCertificate n := by
  refine contents_ext (fun _ => Iff.rfl) (fun _ => rfl) fun m => ?_
  unfold getCertificate deleteCertificate
  rw [DefaultTable.row_deleteWhere h.certificates]
  show _ = Function.update (db.contents h).certificates n none m
  by_cases hm : m = n
  · subst hm
    rw [Function.update_self]
    cases hrow : db.certificates.row m with
    | none => rfl
    | some c => simp [(DefaultTable.mem_of_row hrow).2]
  · rw [Function.update_of_ne hm]
    show _ = db.getCertificate m
    unfold getCertificate
    cases hrow : db.certificates.row m with
    | none => rfl
    | some c =>
      have hne : c.name ≠ n := by rw [(DefaultTable.mem_of_row hrow).2]; exact hm
      simp [hne]

/-- Keys are deleted by their names. -/
theorem contents_deleteKeysWhere (h : db.Integrity) {p : DefaultTable.Row ℕ Name PublicKey → Bool} {q : Name → Bool}
    (hpq : ∀ k ∈ db.keys, p k = q k.name) :
    (db.deleteKeysWhere p).contents (integrity_deleteKeysWhere h p) = (db.contents h).deleteKeys q := by
  refine contents_ext (fun _ => Iff.rfl) (fun m => ?_) fun m => ?_
  · unfold getKey deleteKeysWhere
    rw [DefaultTable.row_deleteWhere h.keys]
    show _ = (db.getKey m).filter fun _ => !q m
    unfold getKey
    cases hrow : db.keys.row m with
    | none => rfl
    | some k =>
      obtain ⟨hk, rfl⟩ := DefaultTable.mem_of_row hrow
      simp only [Option.filter_some, Option.map_some, hpq k hk]
      split <;> rfl
  · unfold getCertificate deleteKeysWhere
    rw [DefaultTable.row_deleteWhere h.certificates]
    show _ = (db.getCertificate m).filter fun cert => !q cert.publicKeyName
    unfold getCertificate
    cases hrow : db.certificates.row m with
    | none => rfl
    | some c =>
      obtain ⟨hc, rfl⟩ := DefaultTable.mem_of_row hrow
      obtain ⟨-, k, hk, hid, hkn⟩ := h.certOf c hc
      -- the certificate goes with its key
      have hdeleted : (decide (∃ l ∈ db.keys, p l = true ∧ l.id = c.scope)) = q c.data.publicKeyName := by
        rw [← hkn, ← hpq k hk, Bool.eq_iff_iff, decide_eq_true_iff]
        constructor
        · rintro ⟨l, hl, hp, hls⟩
          rwa [h.keys.eq_of_id hk hl (hid.trans hls.symm)]
        · intro hp
          exact ⟨k, hk, hp, hid⟩
      simp only [Option.filter_some, Option.map_some, hdeleted]
      split <;> rfl

theorem contents_deleteKey (h : db.Integrity) (n : Name) :
    (db.deleteKey n).contents (integrity_deleteKey h n) = (db.contents h).deleteKey n :=
  contents_deleteKeysWhere h fun _ _ => rfl

/-- The keys that refer to an identity are those whose names tell it. -/
theorem contents_deleteIdentity (h : db.Integrity) (n : Name) :
    (db.deleteIdentity n).contents (integrity_deleteIdentity h n) = (db.contents h).deleteIdentity n := by
  have hkeys := contents_deleteKeysWhere (p := fun k => ∃ i ∈ db.identities, i.name = n ∧ i.id = k.scope)
    (q := fun m => getPrefix m = n) h fun k hk => by
      rw [decide_eq_decide]
      obtain ⟨-, j, hj, hjd, hjn⟩ := h.keyOf k hk
      constructor
      · rintro ⟨i, hi, rfl, hid⟩
        rw [← hjn, h.identities.eq_of_id hi hj (hid.trans hjd.symm)]
      · rintro rfl
        exact ⟨j, hj, hjn, hjd⟩
  refine contents_ext (fun m => ?_) (fun m => congrFun (congrArg Contents.keys hkeys) m)
    fun m => congrFun (congrArg Contents.certificates hkeys) m
  constructor
  · rintro ⟨i, hi, rfl⟩
    obtain ⟨hi, hne⟩ := DefaultTable.mem_deleteWhere.1 hi
    exact ⟨⟨i, hi, rfl⟩, by simpa using hne⟩
  · rintro ⟨⟨i, hi, rfl⟩, hne⟩
    exact ⟨i, DefaultTable.mem_deleteWhere.2 ⟨hi, by simpa using hne⟩, rfl⟩

/-! ## Defaults -/

theorem contents_setUserDefault (h : db.Integrity) (defaultOpt : UInt32) (n : Name) :
    (setUserDefault defaultOpt n db).contents (integrity_setUserDefault h defaultOpt n) = db.contents h := by
  refine contents_congr (fun m => ?_) (fun m => ?_) fun m => ?_
  · unfold setUserDefault
    split
    · exact DefaultTable.has_setDefault h.identities n
    · exact Iff.rfl
  · unfold getKey
    rw [setUserDefault_keys]
  · unfold getCertificate
    rw [setUserDefault_certificates]

theorem contents_setIdDefault (h : db.Integrity) (defaultOpt : UInt32) (n : Name) :
    (setIdDefault defaultOpt n db).contents (integrity_setIdDefault h defaultOpt n) = db.contents h := by
  refine contents_congr (fun m => ?_) (fun m => getKey_setIdDefault h) fun m => ?_
  · unfold hasIdentity
    rw [setIdDefault_identities]
  · unfold getCertificate
    rw [setIdDefault_certificates]

theorem contents_setKeyDefault (h : db.Integrity) (defaultOpt : UInt32) (n : Name) :
    (setKeyDefault defaultOpt n db).contents (integrity_setKeyDefault h defaultOpt n) = db.contents h := by
  refine contents_congr (fun m => ?_) (fun m => ?_) fun m => ?_
  · unfold hasIdentity
    rw [setKeyDefault_identities]
  · unfold getKey
    rw [setKeyDefault_keys]
  · unfold setKeyDefault
    split
    · exact DefaultTable.data_setDefault h.certificates n
    · rfl

end Db

/-! ## Commands -/

variable {db db' : Db} {signer : Name} {reply : PibError}

/-- The command is answered with success. -/
def Command.accepted (db : Db) (signer : Name) (command : Command) : Bool :=
  (command.process db signer).any fun answered => answered.2.code = .success

/-- A handler that is not answered with success changes nothing. -/
theorem carryOut_eq {allowed : Except Thrown Bool} {next : Db}
    (hok : answer db (carryOut allowed db next) = some (db', reply)) :
    db' = if reply.code = .success then next else db := by
  rcases allowed with thrown | (_ | _)
  · cases thrown <;> cases hok <;> rfl
  · cases hok; rfl
  · cases hok; rfl

/-- An update of the user is not in the contents. -/
theorem contents_updateUser (h : db.Integrity) {mgmtCert : IdentityCertificate} (h' : db'.Integrity)
    (hok : answer db (UpdateQueryProcessor.processUpdateUserQuery db mgmtCert signer) = some (db', reply)) :
    db'.contents h' = db.contents h := by
  have hsame : db' = db ∨ db.updateMgmtCertificate mgmtCert = .ok db' := by
    rcases answer_cases hok with hresult | rfl
    · unfold UpdateQueryProcessor.processUpdateUserQuery at hresult
      simp only [bind, Except.bind] at hresult
      split at hresult
      · cases hresult
      · split at hresult
        · cases hresult
        · split at hresult
          · cases hupdate : db.updateMgmtCertificate mgmtCert with
            | error what => rw [hupdate] at hresult; cases hresult
            | ok next => rw [hupdate] at hresult; cases hresult; exact .inr rfl
          · cases hresult; exact .inl rfl
    · exact .inl rfl
  rcases hsame with rfl | hupdate
  · rfl
  · obtain ⟨m, rfl⟩ := Db.updateMgmtCertificate_eq hupdate
    rfl

/-- A handler does to the contents what the command does, if it is answered with success. -/
theorem contents_carryOut {allowed : Except Thrown Bool} {next : Db} {c : Contents} (h : db.Integrity)
    (hnext : next.Integrity) (hc : next.contents hnext = c) (h' : db'.Integrity)
    (hok : answer db (carryOut allowed db next) = some (db', reply)) :
    db'.contents h' = if reply.code = .success then c else db.contents h := by
  obtain rfl := carryOut_eq hok
  split
  · exact hc
  · rfl

theorem contents_process (h : db.Integrity) {command : Command} (hok : command.process db signer = some (db', reply)) :
    db'.contents (integrity_process h hok) =
      if reply.code = .success then (db.contents h).apply command else db.contents h := by
  cases command with
  | update param =>
    obtain ⟨entity, defaultOpt⟩ := param
    cases entity with
    | user mgmtCert =>
      rw [contents_updateUser h _ hok]
      exact (ite_self _).symm
    | identity identity =>
      have h₁ := Db.integrity_addIdentity h identity
      refine contents_carryOut h (integrity_setUserDefault h₁ defaultOpt identity) ?_ _ hok
      exact (Db.contents_setUserDefault h₁ defaultOpt identity).trans (Db.contents_addIdentity h identity)
    | publicKey keyName key =>
      have h₁ := Db.integrity_addKey h keyName key
      have h₂ := integrity_setIdDefault h₁ defaultOpt keyName
      refine contents_carryOut h (integrity_setUserDefault h₂ defaultOpt _) ?_ _ hok
      exact (Db.contents_setUserDefault h₂ defaultOpt _).trans
        ((Db.contents_setIdDefault h₁ defaultOpt keyName).trans (Db.contents_addKey h keyName key))
    | certificate cert =>
      have h₁ := Db.integrity_addCertificate h cert
      have h₂ := integrity_setKeyDefault h₁ defaultOpt cert.name
      have h₃ := integrity_setIdDefault h₂ defaultOpt cert.publicKeyName
      refine contents_carryOut h (integrity_setUserDefault h₃ defaultOpt _) ?_ _ hok
      exact (Db.contents_setUserDefault h₃ defaultOpt _).trans
        ((Db.contents_setIdDefault h₂ defaultOpt cert.publicKeyName).trans
          ((Db.contents_setKeyDefault h₁ defaultOpt cert.name).trans (Db.contents_addCertificate h cert)))
  | delete param =>
    obtain ⟨targetType, targetName⟩ := param
    change DeleteQueryProcessor.process db ⟨targetType, targetName⟩ signer = _ at hok
    unfold DeleteQueryProcessor.process at hok
    dsimp only at hok
    split at hok
    · cases hok
      rfl
    · have h₁ := Db.integrity_deleteIdentity h targetName
      exact contents_carryOut h h₁ (Db.contents_deleteIdentity h targetName) _ hok
    · have h₁ := Db.integrity_deleteKey h targetName
      exact contents_carryOut h h₁ (Db.contents_deleteKey h targetName) _ hok
    · have h₁ := Db.integrity_deleteCertificate h targetName
      exact contents_carryOut h h₁ (Db.contents_deleteCertificate h targetName) _ hok
    · cases hok
      rfl

/-! ## Runs -/

instance (db : Db) (e : Command × Name) : Decidable (pibService.enabled db e) :=
  inferInstanceAs (Decidable ((e.1.process db e.2).isSome = true))

/-- The commands of a run that were answered with success. -/
def acceptedCommands (db : Db) (es : List (Command × Name)) : List Command :=
  pibService.log (fun db e => if e.1.accepted db e.2 then [e.1] else []) db es

theorem contents_step (h : db.Integrity) {e : Command × Name} (he : pibService.enabled db e)
    (h' : (pibService.step db e).Integrity) :
    (pibService.step db e).contents h' = if e.1.accepted db e.2 then (db.contents h).apply e.1 else db.contents h := by
  obtain ⟨reply, hok⟩ := process_of_enabled he
  have haccepted : e.1.accepted db e.2 = decide (reply.code = .success) := by
    unfold Command.accepted
    rw [hok]
    rfl
  rw [contents_process h hok, haccepted]
  simp only [decide_eq_true_iff]

/-- In every run of the service, the database holds what the accepted commands make of it, in their order. -/
theorem contents_exec (h : db.Integrity) (es : List (Command × Name)) (hr : pibService.Runs db es) :
    ∃ h', (pibService.exec db es).contents h' = (acceptedCommands db es).foldl Contents.apply (db.contents h) := by
  induction es generalizing db with
  | nil => exact ⟨h, rfl⟩
  | cons e es ih =>
    obtain ⟨reply, hok⟩ := process_of_enabled hr.1
    have h₁ : (pibService.step db e).Integrity := integrity_process h hok
    obtain ⟨h', hc⟩ := ih h₁ hr.2
    refine ⟨h', hc.trans ?_⟩
    rw [contents_step h hr.1 h₁]
    unfold acceptedCommands
    rw [Machine.log, List.foldl_append]
    split
    · rfl
    · rfl

end NdnTools.Pib
