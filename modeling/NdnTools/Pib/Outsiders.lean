/-
What outsiders cannot do to the service. Interests without an authentic command leave no trace: without them
the others get the same answers and make the same of the database, as what the validator caches does not
matter. And whoever can sign for none of the keys in the PIB has no authentic command, as long as those who can
bring in no key that they can sign for.
-/
import NdnTools.Pib.Served

namespace NdnTools.Pib

section
variable [Certificates]

section
variable [SignedInterests]

/-! ## Validators on one database -/

variable {user : Component} {vd vd' : ValidatedDb} {db db' : Db} {command : Command} {signer : Name} {error : PibError}

/-- What a check comes to does not depend on what is cached. -/
theorem checkPolicy_congr (h : Coherent vd) (h' : Coherent vd') (hr : ReadyFor user vd) (hr' : ReadyFor user vd')
    (hdb : vd.db = vd'.db) (interest : Name) :
    (vd.validator.checkPolicy vd.db interest).2 = (vd'.validator.checkPolicy vd'.db interest).2 := by
  obtain ⟨mgmt, hmgmt⟩ := Option.isSome_iff_exists.1 (h.ready hr.ready)
  have hcert : vd.validator.mgmtCert = some mgmt := h.mgmtCert.trans hmgmt
  have hcert' : vd'.validator.mgmtCert = some mgmt := by rw [h'.mgmtCert, ← hdb, hmgmt]
  have hfind : ∀ keyName, (vd.validator.findKey vd.db keyName).2 = (vd'.validator.findKey vd'.db keyName).2 :=
    fun keyName => by rw [(findKey_spec keyName h.cache).1, (findKey_spec keyName h'.cache).1, hdb]
  unfold PibValidator.checkPolicy
  rw [if_neg (not_not.2 hr.ready), if_neg (not_not.2 hr'.ready), hr.validator, hr'.validator]
  split
  · rfl
  split
  · rfl
  cases decodeSignature (interest.getD offsetSigInfo []) (interest.getD offsetSigValue []) with
  | error e => rfl
  | ok signature =>
    rcases hl : signature.keyLocator with _ | locator | _
    · simp only [hl]
    · simp only [hl, hcert, hcert']
      split
      · rfl
      cases certificateNameToPublicKeyName locator with
      | error e => rfl
      | ok keyName =>
        have hkey := hfind keyName
        dsimp only
        generalize vd.validator.findKey vd.db keyName = found at hkey ⊢
        generalize vd'.validator.findKey vd'.db keyName = found' at hkey ⊢
        obtain ⟨_, key⟩ := found
        obtain ⟨_, key'⟩ := found'
        obtain rfl : key = key' := hkey
        cases key <;> rfl
    · simp only [hl]

/-! ## The keys that are stored -/

/-- No compromised key is stored. -/
structure Db.Clean (compromised : PublicKey → Prop) (db : Db) : Prop where
  keys : ∀ n key, db.getKey n = some key → ¬ compromised key
  mgmtCert : ∀ cert, db.getMgmtCertificate = some cert → ¬ compromised cert.publicKeyInfo

/-- The keys that a command brings in. -/
def Command.broughtKeys (command : Command) : List PublicKey :=
  command.newKey.toList ++ command.newMgmtCert.toList.map IdentityCertificate.publicKeyInfo

variable {compromised : PublicKey → Prop}

omit [SignedInterests] in
theorem Db.Clean.currentKey {locator : Name} {key : PublicKey} (h : db.Clean compromised)
    (hkey : CurrentKey db locator key) : ¬ compromised key := by
  rcases hkey with ⟨mgmt, hm, -, rfl⟩ | ⟨-, keyName, -, hkey⟩
  · exact h.mgmtCert mgmt hm
  · exact h.keys keyName key hkey

theorem getMgmtCertificate_process (hok : command.process db signer = some (db', error)) :
    db'.getMgmtCertificate = db.getMgmtCertificate ∨
      ∃ cert, command.newMgmtCert = some cert ∧ db'.getMgmtCertificate = some cert := by
  by_cases hcode : error.code = .success
  · have hmgmt : (validatorMachine.exec (.init db) command.calls).db.getMgmtCertificate =
        command.newMgmtCert.or db.getMgmtCertificate := getMgmtCertificate_calls hok hcode
    have hdb : (validatorMachine.exec (.init db) command.calls).db = db' := calls_spec hok hcode
    rw [hdb] at hmgmt
    cases hnew : command.newMgmtCert with
    | none =>
      rw [hnew, Option.none_or] at hmgmt
      exact .inl hmgmt
    | some cert =>
      rw [hnew, Option.some_or] at hmgmt
      exact .inr ⟨cert, rfl, hmgmt⟩
  · rw [db_of_not_success hok hcode]
    exact .inl rfl

/-- The keys stored after a command were stored before, or the command has brought them in. -/
theorem Db.Clean.process (h : db.Clean compromised) (hi : db.Integrity)
    (hok : command.process db signer = some (db', error)) (hb : ∀ key ∈ command.broughtKeys, ¬ compromised key) :
    db'.Clean compromised where
  keys n key hkey := by
    have hcontents := congrArg (fun c => c.keys n) (contents_process hi hok)
    have hkey' : (db'.contents (integrity_process hi hok)).keys n = some key := hkey
    rw [hkey'] at hcontents
    split at hcontents
    · rcases Contents.keys_apply hcontents.symm with hold | hnew
      · exact h.keys n key hold
      · refine hb key (List.mem_append_left _ ?_)
        rw [hnew]
        exact List.mem_singleton_self key
    · exact h.keys n key hcontents.symm
  mgmtCert cert hcert := by
    rcases getMgmtCertificate_process hok with hold | ⟨cert', hnew, hcert'⟩
    · exact h.mgmtCert cert (hold ▸ hcert)
    · rw [hcert'] at hcert
      cases hcert
      refine hb _ (List.mem_append_right _ ?_)
      rw [hnew]
      exact List.mem_singleton_self _

theorem Db.Clean.exec (h : db.Clean compromised) (hi : db.Integrity) {es : List (Command × Name)}
    (hr : pibService.Runs db es) (hb : ∀ e ∈ es, ∀ key ∈ e.1.broughtKeys, ¬ compromised key) :
    (pibService.exec db es).Clean compromised := by
  induction es generalizing db with
  | nil => exact h
  | cons e es ih =>
    obtain ⟨hb, hbs⟩ := List.forall_mem_cons.1 hb
    obtain ⟨reply, hok⟩ := process_of_enabled hr.1
    exact ih (h.process hi hok hb) (integrity_process hi hok) hr.2 hbs

end

namespace Service

variable [Encoding.Formats] [SignatureInfos]

variable {s s' t : Service} {e : Received} {es : List Received} {texts : LibraryTexts} {packets : List Packet}

/-! ## Services on one database -/

/-- The services differ at most in what their validators cache. -/
structure Alike (s t : Service) : Prop where
  owner : s.owner = t.owner
  tpmLocator : s.tpmLocator = t.tpmLocator
  mgmtCert : s.mgmtCert = t.mgmtCert
  db : s.validated.db = t.validated.db

omit [Encoding.Formats] [SignatureInfos] in
theorem Alike.filterFor (h : Alike s t) (verb : Component) : s.filterFor verb = t.filterFor verb := by
  unfold Service.filterFor
  rw [h.owner]

/-- A request is served alike. -/
theorem Alike.serve (h : Alike s t) {request : Request} (hok : serve e s request = some (s', packets)) :
    ∃ t', serve e t request = some (t', packets) ∧ Alike s' t' := by
  cases request with
  | discarded =>
    cases hok
    exact ⟨t, rfl, h⟩
  | refused reply =>
    obtain ⟨content, hcontent, hok⟩ := Option.bind_eq_some_iff.1 hok
    cases hok
    exact ⟨t, Option.bind_eq_some_iff.2 ⟨content, hcontent, rfl⟩, h⟩
  | command command signer =>
    obtain ⟨⟨db', error⟩, hprocess, hok⟩ := Option.bind_eq_some_iff.1 hok
    obtain ⟨content, hcontent, hok⟩ := Option.bind_eq_some_iff.1 hok
    have hprocess' : command.process t.validated.db signer = some (db', error) := h.db ▸ hprocess
    cases hok
    refine ⟨_, Option.bind_eq_some_iff.2 ⟨(db', error), hprocess',
      Option.bind_eq_some_iff.2 ⟨content, hcontent, rfl⟩⟩, ?_⟩
    split
    · rename_i hcode
      have hdb : (validatorMachine.exec s.validated command.calls).db =
          (validatorMachine.exec t.validated command.calls).db := by
        rw [calls_spec hprocess hcode, calls_spec hprocess' hcode]
      unfold setMgmtCert
      split
      · exact ⟨h.owner, h.tpmLocator, rfl, hdb⟩
      · exact ⟨h.owner, h.tpmLocator, h.mgmtCert, hdb⟩
    · exact h

/-- Of an Interest for a command the same is made. -/
theorem Alike.onSignedCommand (h : Alike s t) (hs : Sound s) (ht : Sound t) {request : Request}
    (hok : onSignedCommand e request s = some (s', packets)) :
    ∃ t', onSignedCommand e request t = some (t', packets) ∧ Alike s' t' := by
  have hcheck := checkPolicy_congr hs.coherent ht.coherent hs.ready (h.owner ▸ ht.ready) h.db e.interestName
  unfold Service.onSignedCommand at hok ⊢
  generalize s.validated.validator.checkPolicy s.validated.db e.interestName = check at hcheck hok
  generalize t.validated.validator.checkPolicy t.validated.db e.interestName = check' at hcheck ⊢
  obtain ⟨validator, outcome⟩ := check
  obtain ⟨validator', outcome'⟩ := check'
  obtain rfl : outcome = outcome' := hcheck
  -- only the validators differ
  have halike : Alike { s with validated := { s.validated with validator := validator } }
      { t with validated := { t.validated with validator := validator' } } :=
    ⟨h.owner, h.tpmLocator, h.mgmtCert, h.db⟩
  rcases outcome with reason | ⟨key, _ | _⟩ | _
  · cases hok; exact ⟨_, rfl, halike⟩
  · cases hok; exact ⟨_, rfl, halike⟩
  · exact halike.serve hok
  · cases hok

theorem Alike.onInterest (h : Alike s t) (hs : Sound s) (ht : Sound t)
    (hok : onInterest texts e s = some (s', packets)) :
    ∃ t', onInterest texts e t = some (t', packets) ∧ Alike s' t' := by
  unfold Service.onInterest at hok ⊢
  simp only [← h.filterFor, ← h.mgmtCert, ← h.db, ← h.tpmLocator]
  split_ifs at hok ⊢
  · cases hok
    exact ⟨t, rfl, h⟩
  · obtain ⟨result, hresult, hok⟩ := Option.bind_eq_some_iff.1 hok
    cases hok
    exact ⟨t, Option.bind_eq_some_iff.2 ⟨result, hresult, rfl⟩, h⟩
  · obtain ⟨result, hresult, hok⟩ := Option.bind_eq_some_iff.1 hok
    cases hok
    exact ⟨t, Option.bind_eq_some_iff.2 ⟨result, hresult, rfl⟩, h⟩
  · obtain ⟨result, hresult, hok⟩ := Option.bind_eq_some_iff.1 hok
    cases hok
    exact ⟨t, Option.bind_eq_some_iff.2 ⟨result, hresult, rfl⟩, h⟩
  · exact h.onSignedCommand hs ht hok
  · exact h.onSignedCommand hs ht hok
  · cases hok
    exact ⟨t, rfl, h⟩

/-- An Interest without an authentic command changes nothing but what is cached. -/
theorem alike_of_unauthentic (hno : authenticCommand texts s e = [])
    (hok : onInterest texts e s = some (s', packets)) : Alike s' s := by
  have hrefl : Alike s s := ⟨rfl, rfl, rfl, rfl⟩
  have hsigned : ∀ {request : Request},
      request.authentic (s.validated.validator.checkPolicy s.validated.db e.interestName).2 = [] →
      onSignedCommand e request s = some (s', packets) → Alike s' s := by
    intro request hno hok
    unfold Service.onSignedCommand at hok
    generalize s.validated.validator.checkPolicy s.validated.db e.interestName = check at hok hno
    obtain ⟨validator, reason | ⟨key, _ | _⟩ | _⟩ := check
    · cases hok; exact ⟨rfl, rfl, rfl, rfl⟩
    · cases hok; exact ⟨rfl, rfl, rfl, rfl⟩
    · cases request with
      | discarded => cases hok; exact ⟨rfl, rfl, rfl, rfl⟩
      | refused reply =>
        obtain ⟨content, -, hok⟩ := Option.bind_eq_some_iff.1 hok
        cases hok
        exact ⟨rfl, rfl, rfl, rfl⟩
      | command command signer => cases hno
    · cases hok
  unfold authenticCommand requestOf at hno
  unfold Service.onInterest at hok
  split_ifs at hok
  · cases hok
    exact hrefl
  · obtain ⟨result, -, hok⟩ := Option.bind_eq_some_iff.1 hok
    cases hok
    exact hrefl
  · obtain ⟨result, -, hok⟩ := Option.bind_eq_some_iff.1 hok
    cases hok
    exact hrefl
  · obtain ⟨result, -, hok⟩ := Option.bind_eq_some_iff.1 hok
    cases hok
    exact hrefl
  · rename_i hverb
    rw [if_pos hverb] at hno
    exact hsigned hno hok
  · rename_i hnot hverb
    rw [if_neg hnot, if_pos hverb] at hno
    exact hsigned hno hok
  · cases hok
    exact hrefl

/-! ## Runs -/

/-- An Interest with the packets that are put for it. -/
def answers (texts : LibraryTexts) (s : Service) (e : Received) : List (Received × List Packet) :=
  (onInterest texts e s).toList.map fun served => (e, served.2)

/-- The Interests that are kept are answered as if there were no others, and lead to the same database. -/
structure Undisturbed (texts : LibraryTexts) (keep : Received → Bool) (s : Service) (es : List Received) : Prop where
  runs : (machine texts).Runs s (es.filter keep)
  answers : (machine texts).log (fun s e => if keep e then answers texts s e else []) s es =
    (machine texts).log (answers texts) s (es.filter keep)
  db : ((machine texts).exec s es).validated.db = ((machine texts).exec s (es.filter keep)).validated.db

theorem undisturbed (hs : Sound s) (keep : Received → Bool) (hr : (machine texts).Runs s es)
    (hno : (machine texts).Each (fun s e => keep e = false → authenticCommand texts s e = []) s es) :
    Undisturbed texts keep s es := by
  let R (s t : Service) : Prop := Sound s ∧ Sound t ∧ Alike s t
  have hkept : ∀ s t e, R s t → (machine texts).enabled s e → keep e = true → (machine texts).enabled t e ∧
      R ((machine texts).step s e) ((machine texts).step t e) ∧ Service.answers texts s e = Service.answers texts t e := by
    rintro s t e ⟨hs, ht, h⟩ he -
    obtain ⟨packets, hok⟩ := onInterest_of_enabled he
    obtain ⟨t', hok', halike⟩ := h.onInterest hs ht hok
    have he' : (machine texts).enabled t e := by
      show (onInterest texts e t).isSome = true
      rw [hok']
      rfl
    have hstep : (machine texts).step t e = t' := by
      show ((onInterest texts e t).map Prod.fst).getD t = t'
      rw [hok']
      rfl
    refine ⟨he', ⟨sound_step hs he, sound_step ht he', ?_⟩, ?_⟩
    · rw [hstep]
      exact halike
    · unfold Service.answers
      rw [hok, hok']
      rfl
  have hdropped : ∀ s t e, R s t → (machine texts).enabled s e → authenticCommand texts s e = [] →
      R ((machine texts).step s e) t := by
    rintro s t e ⟨hs, ht, h⟩ he hno
    obtain ⟨packets, hok⟩ := onInterest_of_enabled he
    have hsame := alike_of_unauthentic hno hok
    exact ⟨sound_step hs he, ht, hsame.owner.trans h.owner, hsame.tpmLocator.trans h.tpmLocator,
      hsame.mgmtCert.trans h.mgmtCert, hsame.db.trans h.db⟩
  obtain ⟨hruns, ⟨-, -, halike⟩, hlog⟩ := Machine.runs_filter hkept hdropped ⟨hs, hs, rfl, rfl, rfl, rfl⟩ hr hno
  exact ⟨hruns, hlog, halike.db⟩

section
variable {db : Db} {owner keyId : Component} {tpmLocator storedLocator : Bytes} {doesKeyExistInTpm : Name → Bool}
  {generated : IdentityCertificate}

/-- In every run of a new service, Interests without an authentic command can be left out. -/
theorem unauthentic_ignored (h : db.Integrity) (hname : generated.publicKeyName = mgmtKeyName owner keyId)
    (hok : create owner tpmLocator storedLocator doesKeyExistInTpm generated db = .ok s) (keep : Received → Bool)
    (hr : (machine texts).Runs s es)
    (hno : (machine texts).Each (fun s e => keep e = false → authenticCommand texts s e = []) s es) :
    Undisturbed texts keep s es :=
  undisturbed (sound_create h hname hok) keep hr hno

/-- The signature in the Interest is valid for compromised keys at most. -/
def Forged (compromised : PublicKey → Prop) (e : Received) : Prop :=
  ∀ signature key,
    decodeSignature (e.interestName.getD offsetSigInfo []) (e.interestName.getD offsetSigValue []) = .ok signature →
    verifySignature e.interestName signature key = true → compromised key

variable {compromised : PublicKey → Prop}

/-- Where no compromised key is stored, a forged command is not authentic. -/
theorem unauthentic_of_forged (hs : Sound s) (hclean : s.validated.db.Clean compromised)
    (hforged : Forged compromised e) : authenticCommand texts s e = [] := by
  refine List.eq_nil_iff_forall_not_mem.2 fun ⟨command, signer⟩ hmem => ?_
  obtain ⟨-, signature, key, hdecode, -, hkey, hvalid⟩ := (mem_authenticCommand hs).1 hmem
  exact hclean.currentKey hkey (hforged signature key hdecode hvalid)

omit [Encoding.Formats] [SignatureInfos] in
theorem clean_create (hclean : db.Clean compromised) (hgenerated : ¬ compromised generated.publicKeyInfo)
    (hok : create owner tpmLocator storedLocator doesKeyExistInTpm generated db = .ok s) :
    s.validated.db.Clean compromised := by
  rcases db_create hok with heq | hupdate
  · rw [heq]
    exact hclean
  · have hmgmt := getMgmtCertificate_updateMgmtCertificate hupdate
    obtain ⟨m, heq⟩ := Db.updateMgmtCertificate_eq hupdate
    refine ⟨fun n key hkey => hclean.keys n key ?_, fun cert hcert => ?_⟩
    · rw [heq] at hkey
      exact hkey
    · rw [hmgmt] at hcert
      cases hcert
      exact hgenerated

/-- Whoever holds no private key but those of compromised keys cannot disturb the service, in whatever order his
Interests come between the others, as long as no compromised key is stored at first and none of the others' commands
brings one in. And then no compromised key is ever stored. -/
theorem outsiders_ignored (compromised : PublicKey → Prop) (outside : Received → Bool) (h : db.Integrity)
    (hname : generated.publicKeyName = mgmtKeyName owner keyId) (hclean : db.Clean compromised)
    (hgenerated : ¬ compromised generated.publicKeyInfo)
    (hok : create owner tpmLocator storedLocator doesKeyExistInTpm generated db = .ok s)
    (hr : (machine texts).Runs s es) (hforged : ∀ e ∈ es, outside e = true → Forged compromised e)
    (hinside : (machine texts).Each (fun s e => outside e = false →
      ∀ c ∈ authenticCommand texts s e, ∀ key ∈ c.1.broughtKeys, ¬ compromised key) s es) :
    (machine texts).Always (fun s => s.validated.db.Clean compromised) s es ∧
      Undisturbed texts (fun e => !outside e) s es := by
  have hs := sound_create h hname hok
  have hunauthentic : ∀ s e, Sound s ∧ s.validated.db.Clean compromised →
      (outside e = true → Forged compromised e) → outside e = true → authenticCommand texts s e = [] :=
    fun s e hI hforged hout => unauthentic_of_forged hI.1 hI.2 (hforged hout)
  have hmeets := hinside.and_of_mem hforged
  have halways : (machine texts).Always (fun s => Sound s ∧ s.validated.db.Clean compromised) s es := by
    refine Machine.always_of_inv ?_ ⟨hs, clean_create hclean hgenerated hok⟩ hr hmeets
    rintro s e hI he ⟨hinside, hforged⟩
    obtain ⟨packets, hok⟩ := onInterest_of_enabled he
    obtain ⟨hsound, hruns, hexec⟩ := onInterest_spec hI.1 hok
    refine ⟨hsound, ?_⟩
    rw [← hexec]
    refine hI.2.exec hI.1.coherent.integrity hruns fun c hc => ?_
    cases hout : outside e with
    | true =>
      rw [hunauthentic s e hI hforged hout] at hc
      cases hc
    | false => exact hinside hout c hc
  refine ⟨halways.imp fun _ hI => hI.2, undisturbed hs _ hr ?_⟩
  have hno := Machine.each_of_always (c := fun s e => (outside e = true → Forged compromised e) →
    (!outside e) = false → authenticCommand texts s e = [])
    (fun s e hI _ _ hforged hkeep => hunauthentic s e hI hforged (by simpa using hkeep)) hr halways
  exact (Machine.each_and.2 ⟨hno, hmeets⟩).imp fun _ _ h hkeep => h.1 h.2.2 hkeep

end

end Service

end

/-! ## An example -/

section

local instance : Certificates := servedNames
local instance : Encoding.Formats := servedFormats
local instance : SignatureInfos := servedSignatures

namespace Service

/-- The signature is not valid for any key. -/
def isForged (e : Received) : Bool := e.interestName.getD offsetSigValue [] = [23, 1, 0]

theorem unauthentic_ignored_someInterests : Undisturbed texts (fun e => !isForged e) serviceOfU someInterests :=
  unauthentic_ignored Db.integrity_empty publicKeyName_mgmtCertOfU create_serviceOfU _ runs_someInterests
    (by decide +kernel)

theorem outsiders_ignored_someInterests :
    (machine texts).Always (fun s => s.validated.db.Clean fun key => key = [99]) serviceOfU someInterests ∧
      Undisturbed texts (fun e => !isForged e) serviceOfU someInterests := by
  refine outsiders_ignored _ isForged Db.integrity_empty publicKeyName_mgmtCertOfU ⟨nofun, nofun⟩ (by decide)
    create_serviceOfU runs_someInterests ?_ (by decide +kernel)
  intro e _ hforged signature key hdecode hvalid
  have hvalue : e.interestName.getD offsetSigValue [] = [23, 1, 0] := by simpa [isForged] using hforged
  have hone : signature.value = [23, 1, 1] := by simpa [verifySignature] using hvalid
  rw [hvalue] at hdecode
  have hsame : signature.value = [23, 1, 0] := by
    simp only [decodeSignature] at hdecode
    split at hdecode
    · cases hdecode
    · cases hdecode; rfl
  rw [hsame] at hone
  cases hone

end Service

end

end NdnTools.Pib
