/-
What a command that is carried out calls on the database, one operation after the other. The calls lead
to where the command leads, and the validator follows each.
-/
import NdnTools.Pib.Contents
import NdnTools.Pib.Validator

namespace NdnTools.Pib

variable [Certificates]

/-- The operations that a command calls if it is carried out. -/
def Command.operations : Command → List Operation
  | .update ⟨.user _, _⟩ => []
  | .update ⟨.identity identity, defaultOpt⟩ =>
    .addIdentity identity :: (if setsUserDefault defaultOpt then [.setDefaultIdentity identity] else [])
  | .update ⟨.publicKey keyName key, defaultOpt⟩ =>
    .addKey keyName key :: ((if setsIdDefault defaultOpt then [.setDefaultKeyNameOfIdentity keyName] else []) ++
      (if setsUserDefault defaultOpt then [.setDefaultIdentity (getPrefix keyName)] else []))
  | .update ⟨.certificate cert, defaultOpt⟩ =>
    .addCertificate cert :: ((if setsKeyDefault defaultOpt then [.setDefaultCertNameOfKey cert.name] else []) ++
      ((if setsIdDefault defaultOpt then [.setDefaultKeyNameOfIdentity cert.publicKeyName] else []) ++
        (if setsUserDefault defaultOpt then [.setDefaultIdentity (getPrefix cert.publicKeyName)] else [])))
  | .delete param =>
    match param.targetType with
    | 1 => [.deleteIdentity param.targetName]
    | 2 => [.deleteKey param.targetName]
    | 3 => [.deleteCertificate param.targetName]
    | _ => []

/-- The new management certificate, in an update of the user. -/
def Command.newMgmtCert : Command → Option IdentityCertificate
  | .update ⟨.user mgmtCert, _⟩ => some mgmtCert
  | _ => none

/-- What a command that is carried out calls on the database. -/
def Command.calls (command : Command) : List ValidatorEvent :=
  command.newMgmtCert.toList.map .updateMgmtCertificate ++ command.operations.map .operation

variable {db db' : Db} {command : Command} {signer : Name} {error : PibError} {vd : ValidatedDb}

/-! ## Updates of the user -/

theorem getMgmtCertificate_updateMgmtCertificate {cert : IdentityCertificate}
    (hok : db.updateMgmtCertificate cert = .ok db') : db'.getMgmtCertificate = some cert := by
  unfold Db.updateMgmtCertificate at hok
  split at hok
  · split at hok
    · cases hok
    split at hok
    · split at hok
      · cases hok
      · cases hok; rfl
    · cases hok; rfl
  · cases hok

/-- An update of the user is answered with success if the management certificate is written, and with an error if
nothing is. -/
theorem updateUser_reply {mgmtCert : IdentityCertificate}
    (hok : answer db (UpdateQueryProcessor.processUpdateUserQuery db mgmtCert signer) = some (db', error)) :
    if error.code = .success then db.updateMgmtCertificate mgmtCert = .ok db' else db' = db := by
  rcases hresult : UpdateQueryProcessor.processUpdateUserQuery db mgmtCert signer with thrown | result
  · rw [hresult] at hok
    cases thrown <;> cases hok <;> rfl
  · rw [hresult] at hok
    cases hok
    unfold UpdateQueryProcessor.processUpdateUserQuery at hresult
    simp only [bind, Except.bind] at hresult
    split at hresult
    · cases hresult
    split at hresult
    · cases hresult
    split at hresult
    · cases hupdate : db.updateMgmtCertificate mgmtCert with
      | error what => rw [hupdate] at hresult; cases hresult
      | ok next => rw [hupdate] at hresult; cases hresult; rfl
    · cases hresult
      rfl

theorem updateUser_success {mgmtCert : IdentityCertificate} (hcode : error.code = .success)
    (hok : answer db (UpdateQueryProcessor.processUpdateUserQuery db mgmtCert signer) = some (db', error)) :
    db.updateMgmtCertificate mgmtCert = .ok db' := by
  have hreply := updateUser_reply hok
  rwa [if_pos hcode] at hreply

/-- A command that is not answered with success changes nothing. -/
theorem db_of_not_success (hok : command.process db signer = some (db', error)) (hcode : error.code ≠ .success) :
    db' = db := by
  have hcarry : ∀ {allowed : Except Thrown Bool} {next : Db},
      answer db (carryOut allowed db next) = some (db', error) → db' = db := fun hanswer => by
    rw [carryOut_eq hanswer, if_neg hcode]
  cases command with
  | update param =>
    obtain ⟨entity, defaultOpt⟩ := param
    cases entity with
    | user mgmtCert =>
      have hreply := updateUser_reply hok
      rwa [if_neg hcode] at hreply
    | identity identity => exact hcarry hok
    | publicKey keyName key => exact hcarry hok
    | certificate cert => exact hcarry hok
  | delete param =>
    obtain ⟨_ | _ | _ | _ | targetType, targetName⟩ := param
    · cases hok; rfl
    · exact hcarry hok
    · exact hcarry hok
    · exact hcarry hok
    · cases hok; rfl

/-! ## Where the calls lead -/

theorem foldl_apply_if (b : Bool) (o : Operation) (db : Db) :
    (if b then [o] else []).foldl Operation.apply db = if b then o.apply db else db := by
  cases b <;> rfl

variable [SignedInterests]

theorem db_exec_operations : ∀ (os : List Operation) (vd : ValidatedDb),
    (validatorMachine.exec vd (os.map .operation)).db = os.foldl Operation.apply vd.db
  | [], _ => rfl
  | _ :: os, _ => db_exec_operations os _

/-- A command that is answered with success has led to where its calls lead. -/
theorem calls_spec (hok : command.process vd.db signer = some (db', error)) (hcode : error.code = .success) :
    (validatorMachine.exec vd command.calls).db = db' := by
  cases command with
  | update param =>
    obtain ⟨entity, defaultOpt⟩ := param
    cases entity with
    | user mgmtCert =>
      have hupdate : vd.db.updateMgmtCertificate mgmtCert = .ok db' := updateUser_success hcode hok
      show (vd.step (.updateMgmtCertificate mgmtCert)).db = db'
      simp only [ValidatedDb.step, hupdate]
    | identity identity =>
      obtain ⟨-, rfl⟩ := carryOut_success hok hcode
      refine (db_exec_operations _ vd).trans ?_
      exact foldl_apply_if _ _ _
    | publicKey keyName key =>
      obtain ⟨-, rfl⟩ := carryOut_success hok hcode
      refine (db_exec_operations _ vd).trans ?_
      refine List.foldl_append.trans ?_
      rw [foldl_apply_if, foldl_apply_if]
      rfl
    | certificate cert =>
      obtain ⟨-, rfl⟩ := carryOut_success hok hcode
      refine (db_exec_operations _ vd).trans ?_
      refine List.foldl_append.trans ?_
      rw [List.foldl_append, foldl_apply_if, foldl_apply_if, foldl_apply_if]
      rfl
  | delete param =>
    obtain ⟨_ | _ | _ | _ | targetType, targetName⟩ := param
    · cases hok; cases hcode
    · exact (carryOut_success hok hcode).2.symm
    · exact (carryOut_success hok hcode).2.symm
    · exact (carryOut_success hok hcode).2.symm
    · cases hok; cases hcode

theorem mgmt_exec_operations (os : List Operation) (vd : ValidatedDb) :
    (validatorMachine.exec vd (os.map .operation)).db.mgmt = vd.db.mgmt := by
  rw [db_exec_operations]
  induction os generalizing vd with
  | nil => rfl
  | cons o os ih => exact (ih ⟨o.apply vd.db, vd.validator⟩).trans (apply_mgmt o)

/-- The management certificate is that which the command names, or else the old one. -/
theorem getMgmtCertificate_calls (hok : command.process vd.db signer = some (db', error))
    (hcode : error.code = .success) :
    (validatorMachine.exec vd command.calls).db.getMgmtCertificate =
      command.newMgmtCert.or vd.db.getMgmtCertificate := by
  cases hnew : command.newMgmtCert with
  | none =>
    unfold Command.calls Db.getMgmtCertificate
    rw [hnew, Option.none_or]
    exact congrArg _ (mgmt_exec_operations _ vd)
  | some mgmtCert =>
    rw [Option.some_or, calls_spec hok hcode]
    obtain ⟨⟨entity, defaultOpt⟩⟩ | param := command
    · cases entity with
      | user cert =>
        cases hnew
        exact getMgmtCertificate_updateMgmtCertificate (updateUser_success hcode hok)
      | _ => cases hnew
    · cases hnew

/-- The validator stays coherent. -/
theorem coherent_calls (h : Coherent vd) (es : List ValidatorEvent) : Coherent (validatorMachine.exec vd es) :=
  Machine.always_last _ _ <| Machine.always_of_step (fun _ e h _ => coherent_step h e) h <|
    Machine.runs_of_enabled (fun _ _ => trivial) _ _

/-! ## What a validator of the service is for -/

/-- The validator is ready, for commands of the owner of the database. -/
structure ReadyFor (user : Component) (vd : ValidatedDb) : Prop where
  owner : vd.db.getOwnerName = some user
  validator : vd.validator.owner = some user
  ready : vd.validator.isMgmtReady = true

omit [SignedInterests] in
theorem getOwnerName_updateMgmtCertificate {cert : IdentityCertificate} {user : Component}
    (howner : db.getOwnerName = some user) (hok : db.updateMgmtCertificate cert = .ok db') :
    db'.getOwnerName = some user := by
  obtain ⟨m, hm, rfl⟩ := Option.map_eq_some_iff.1 howner
  unfold Db.updateMgmtCertificate at hok
  rw [hm] at hok
  split at hok
  · split at hok
    · cases hok
    dsimp only at hok
    split at hok
    · cases hok
    · cases hok; rfl
  · cases hok

/-- The name of a management key, which the generated certificate is for. -/
def mgmtKeyName (owner keyId : Component) : Name := localhostPib ++ [owner, mgmtLabel, keyId]

omit [SignedInterests] in
theorem getOwnerName_of_none {cert : IdentityCertificate} {owner keyId : Component} (hno : db.getOwnerName = none)
    (hname : cert.publicKeyName = mgmtKeyName owner keyId) (hok : db.updateMgmtCertificate cert = .ok db') :
    db'.getOwnerName = some owner := by
  have hmgmt : db.mgmt = none := Option.map_eq_none_iff.1 hno
  unfold Db.updateMgmtCertificate at hok
  rw [hname, hmgmt] at hok
  cases hok
  rfl

/-- A check changes nothing but the cache. -/
theorem checkPolicy_fst (db : Db) (interest : Name) (v : PibValidator) :
    ∃ cache, (v.checkPolicy db interest).1 = { v with keyCache := cache } := by
  unfold PibValidator.checkPolicy
  split
  · exact ⟨_, rfl⟩
  split
  · exact ⟨_, rfl⟩
  split
  · exact ⟨_, rfl⟩
  split
  · exact ⟨_, rfl⟩
  split
  · exact ⟨_, rfl⟩
  · exact ⟨_, rfl⟩
  · exact ⟨_, rfl⟩
  split
  · exact ⟨_, rfl⟩
  split
  · exact ⟨_, rfl⟩
  rename_i keyName _
  have hfind : ∃ cache, (v.findKey db keyName).1 = { v with keyCache := cache } := by
    unfold PibValidator.findKey
    split
    · exact ⟨_, rfl⟩
    · split <;> exact ⟨_, rfl⟩
  split <;> (rename_i hf; rw [hf] at hfind; exact hfind)

theorem readyFor_step {user : Component} (h : ReadyFor user vd) (e : ValidatorEvent) :
    ReadyFor user (vd.step e) := by
  cases e with
  | operation o =>
    refine ⟨?_, ?_, ?_⟩
    · show (o.apply vd.db).getOwnerName = some user
      unfold Db.getOwnerName
      rw [apply_mgmt]
      exact h.owner
    · simp only [ValidatedDb.step, foldl_onSignal]
      exact h.validator
    · simp only [ValidatedDb.step, foldl_onSignal]
      exact h.ready
  | updateMgmtCertificate cert =>
    cases hok : vd.db.updateMgmtCertificate cert with
    | error what =>
      simp only [ValidatedDb.step, hok]
      exact h
    | ok db' =>
      have howner := getOwnerName_updateMgmtCertificate h.owner hok
      simp only [ValidatedDb.step, hok]
      exact ⟨howner, howner, by simp [PibValidator.mgmtCertificateChanged, h.ready]⟩
  | checkPolicy interest =>
    obtain ⟨cache, hcache⟩ := checkPolicy_fst vd.db interest vd.validator
    simp only [ValidatedDb.step, hcache]
    exact ⟨h.owner, h.validator, h.ready⟩
  | evict keyName => exact ⟨h.owner, h.validator, h.ready⟩

theorem readyFor_calls {user : Component} (h : ReadyFor user vd) (es : List ValidatorEvent) :
    ReadyFor user (validatorMachine.exec vd es) :=
  Machine.always_last _ _ <| Machine.always_of_step (fun _ e h _ => readyFor_step h e) h <|
    Machine.runs_of_enabled (fun _ _ => trivial) _ _

/-! ## A check of a ready validator -/

/-- The signature of the Interest is valid for the current key of its signer. -/
def Authentic (db : Db) (interest signer : Name) : Prop :=
  ∃ signature key, decodeSignature (interest.getD offsetSigInfo []) (interest.getD offsetSigValue []) = .ok signature ∧
    signature.keyLocator = some (.name signer) ∧ CurrentKey db signer key ∧
    verifySignature interest signature key = true

variable {interest : Name} {user : Component} {signature : Signature} {key : PublicKey}

theorem authentic_of_verified (h : Coherent vd)
    (hv : (vd.validator.checkPolicy vd.db interest).2 = .verified key true) :
    ∃ signer, SignedBy interest signer ∧ Authentic vd.db interest signer := by
  obtain ⟨signature, locator, hd, hl, hkey, hvalid⟩ := (checkPolicy_spec h interest).2.current key true hv
  exact ⟨locator, ⟨signature, hd, hl⟩, signature, key, hd, hl, hkey, hvalid.symm⟩

/-- A ready validator verifies the signature of a signed Interest to its user with the current key of the signer. -/
theorem checkPolicy_verified (h : Coherent vd) (hr : ReadyFor user vd) (hlen : interest.length = signedPibInterestSize)
    (huser : interest.getD offsetUser [] = user)
    (hd : decodeSignature (interest.getD offsetSigInfo []) (interest.getD offsetSigValue []) = .ok signature)
    (hl : signature.keyLocator = some (.name signer)) (hk : CurrentKey vd.db signer key) :
    (vd.validator.checkPolicy vd.db interest).2 = .verified key (verifySignature interest signature key) := by
  obtain ⟨mgmt, hmgmt⟩ := Option.isSome_iff_exists.1 (h.ready hr.ready)
  unfold PibValidator.checkPolicy
  rw [if_neg (not_not.2 hr.ready), if_neg (not_not.2 hlen), if_neg (not_not.2 (by rw [huser, hr.validator])), hd]
  simp only [hl, h.mgmtCert.trans hmgmt]
  rcases hk with ⟨mgmt', hm, hlocator, rfl⟩ | ⟨hno, keyName, hn, hkey⟩
  · rw [hmgmt] at hm
    cases hm
    rw [if_pos hlocator]
  · obtain ⟨hfound, -⟩ := findKey_spec keyName h.cache
    rw [if_neg (hno mgmt hmgmt), hn]
    rw [hkey] at hfound
    rcases hfind : vd.validator.findKey vd.db keyName with ⟨v, found⟩
    rw [hfind] at hfound
    cases hfound
    simp only [hfind]

end NdnTools.Pib
