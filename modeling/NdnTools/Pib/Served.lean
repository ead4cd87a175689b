/-
The service serves exactly the commands whose signatures are valid for the current keys of their signers,
whatever Interests come and whoever has signed them; its validator and its certificate follow the
database. So a client of get or list reads in the packet that is put to the Face what the accepted ones
among these commands have made of the contents.
-/
import NdnTools.Pib.Encoding.Accepted
import NdnTools.Pib.Service

namespace NdnTools.Pib

open Tlv
open Encoding (GetParam ListParam PibPublicKey typeUser)

section
variable [Certificates] [Encoding.Formats] [SignatureInfos]

variable {s s' : Service} {e : Received} {texts : LibraryTexts} {db db' : Db} {command : Command} {signer : Name}
  {error : PibError} {packets : List Packet} {vd : ValidatedDb}

/-! ## What the service holds -/

/-- The validator and the service follow the database. -/
structure Service.Sound (s : Service) : Prop where
  coherent : Coherent s.validated
  ready : ReadyFor s.owner s.validated
  mgmtCert : s.mgmtCert = s.validated.db.getMgmtCertificate

namespace Service

omit [Encoding.Formats] in
theorem sound_setMgmtCert (h : Sound s) (hok : command.process s.validated.db signer = some (db', error))
    (hcode : error.code = .success) :
    Sound (setMgmtCert command { s with validated := validatorMachine.exec s.validated command.calls }) := by
  have hmgmt := getMgmtCertificate_calls hok hcode
  unfold setMgmtCert
  cases hnew : command.newMgmtCert with
  | none =>
    rw [hnew, Option.none_or] at hmgmt
    exact ⟨coherent_calls h.coherent _, readyFor_calls h.ready _, h.mgmtCert.trans hmgmt.symm⟩
  | some mgmtCert =>
    rw [hnew, Option.some_or] at hmgmt
    exact ⟨coherent_calls h.coherent _, readyFor_calls h.ready _, hmgmt.symm⟩

omit [Encoding.Formats] [SignatureInfos] in
theorem db_setMgmtCert (command : Command) (s : Service) :
    (setMgmtCert command s).validated = s.validated := by
  unfold setMgmtCert
  split <;> rfl

/-- A request is served as `pibService` serves its command. -/
theorem serve_spec (h : Sound s) {request : Request} {key : PublicKey}
    (hok : serve e s request = some (s', packets)) :
    Sound s' ∧ pibService.Runs s.validated.db (request.authentic (.verified key true)) ∧
      pibService.exec s.validated.db (request.authentic (.verified key true)) = s'.validated.db := by
  cases request with
  | discarded =>
    cases hok
    exact ⟨h, trivial, rfl⟩
  | refused reply =>
    obtain ⟨content, -, hok⟩ := Option.bind_eq_some_iff.1 hok
    cases hok
    exact ⟨h, trivial, rfl⟩
  | command command signer =>
    obtain ⟨⟨db', error⟩, hprocess, hok⟩ := Option.bind_eq_some_iff.1 hok
    obtain ⟨content, -, hok⟩ := Option.bind_eq_some_iff.1 hok
    have henabled : pibService.enabled s.validated.db (command, signer) := by
      show (command.process s.validated.db signer).isSome = true
      rw [hprocess]
      rfl
    have hstep : pibService.step s.validated.db (command, signer) = db' := by
      show ((command.process s.validated.db signer).map Prod.fst).getD s.validated.db = db'
      rw [hprocess]
      rfl
    cases hok
    split
    · rename_i hcode
      refine ⟨sound_setMgmtCert h hprocess hcode, ⟨henabled, trivial⟩, hstep.trans ?_⟩
      rw [db_setMgmtCert, calls_spec hprocess hcode]
    · rename_i hcode
      exact ⟨h, ⟨henabled, trivial⟩, hstep.trans (db_of_not_success hprocess hcode)⟩

/-- Of a command in an Interest only what is authentic is served. -/
theorem onSignedCommand_spec (h : Sound s) {request : Request}
    (hok : onSignedCommand e request s = some (s', packets)) :
    Sound s' ∧
      pibService.Runs s.validated.db
        (request.authentic (s.validated.validator.checkPolicy s.validated.db e.interestName).2) ∧
      pibService.exec s.validated.db
        (request.authentic (s.validated.validator.checkPolicy s.validated.db e.interestName).2) = s'.validated.db := by
  have hchecked := (checkPolicy_spec h.coherent e.interestName).1
  have hready : ReadyFor s.owner
      { s.validated with validator := (s.validated.validator.checkPolicy s.validated.db e.interestName).1 } :=
    readyFor_step h.ready (.checkPolicy e.interestName)
  unfold onSignedCommand at hok
  generalize s.validated.validator.checkPolicy s.validated.db e.interestName = check at hok hchecked hready ⊢
  obtain ⟨validator, outcome⟩ := check
  have hs : Sound { s with validated := { s.validated with validator := validator } } :=
    ⟨hchecked, hready, h.mgmtCert⟩
  cases outcome with
  | verified key valid =>
    cases valid with
    | true => exact serve_spec hs hok
    | false => cases hok; exact ⟨hs, trivial, rfl⟩
  | failed reason => cases hok; exact ⟨hs, trivial, rfl⟩
  | nullPointer => cases hok

omit [Encoding.Formats] [SignatureInfos] in
/-- No Interest is under the prefixes of two verbs. -/
theorem filterFor_unique {verb verb' : Component} (h : s.filterFor verb <+: e.interestName)
    (h' : s.filterFor verb' <+: e.interestName) : verb = verb' := by
  have heq : s.filterFor verb = s.filterFor verb' :=
    (List.prefix_of_prefix_length_le h h' (le_refl _)).eq_of_length rfl
  simpa [filterFor] using heq

omit [Encoding.Formats] [SignatureInfos] in
theorem authentic_discarded (outcome : Outcome) : Request.discarded.authentic outcome = [] := by
  rcases outcome with _ | ⟨_, _ | _⟩ | _ <;> rfl

theorem authenticCommand_of_verb {verb : Component} (h : s.filterFor verb <+: e.interestName)
    (hu : verb ≠ updateVerb) (hd : verb ≠ deleteVerb) : authenticCommand texts s e = [] := by
  unfold authenticCommand requestOf
  rw [if_neg fun h' => hu (filterFor_unique h h'), if_neg fun h' => hd (filterFor_unique h h')]
  exact authentic_discarded _

/-- An Interest makes the service do what its authentic command does, if it has one. -/
theorem onInterest_spec (h : Sound s) (hok : onInterest texts e s = some (s', packets)) :
    Sound s' ∧ pibService.Runs s.validated.db (authenticCommand texts s e) ∧
      pibService.exec s.validated.db (authenticCommand texts s e) = s'.validated.db := by
  have hquery : ∀ {verb : Component}, s.filterFor verb <+: e.interestName → verb ≠ updateVerb → verb ≠ deleteVerb →
      s' = s → Sound s' ∧ pibService.Runs s.validated.db (authenticCommand texts s e) ∧
        pibService.exec s.validated.db (authenticCommand texts s e) = s'.validated.db := by
    rintro verb hverb hu hd rfl
    rw [authenticCommand_of_verb hverb hu hd]
    exact ⟨h, trivial, rfl⟩
  unfold onInterest at hok
  split at hok
  · rename_i hverb
    cases hok
    exact hquery hverb (by decide) (by decide) rfl
  split at hok
  · rename_i hverb
    obtain ⟨result, -, hok⟩ := Option.bind_eq_some_iff.1 hok
    cases hok
    exact hquery hverb (by decide) (by decide) rfl
  split at hok
  · rename_i hverb
    obtain ⟨result, -, hok⟩ := Option.bind_eq_some_iff.1 hok
    cases hok
    exact hquery hverb (by decide) (by decide) rfl
  split at hok
  · rename_i hverb
    obtain ⟨result, -, hok⟩ := Option.bind_eq_some_iff.1 hok
    cases hok
    exact hquery hverb (by decide) (by decide) rfl
  unfold authenticCommand requestOf
  split at hok
  · rename_i hverb
    rw [if_pos hverb]
    exact onSignedCommand_spec h hok
  · rename_i hno
    rw [if_neg hno]
    split at hok
    · rename_i hverb
      rw [if_pos hverb]
      exact onSignedCommand_spec h hok
    · rename_i hno'
      cases hok
      rw [if_neg hno', authentic_discarded]
      exact ⟨h, trivial, rfl⟩

/-! ## Which commands are authentic -/

omit [Certificates] [Encoding.Formats] in
theorem decodeSigner_of_signedBy {interestName : Name} (h : SignedBy interestName signer) :
    decodeSigner interestName = .ok signer := by
  obtain ⟨signature, hd, hl⟩ := h
  unfold decodeSigner
  rw [decodeSignatureInfo_eq hd, hl]
  rfl

omit [Encoding.Formats] in
/-- A command is read in a signed Interest, and its signer in the signature. -/
theorem of_request {α : Type} [WireFormat α] {library : Bytes} {toCommand : α → Except Error (Reply ⊕ Command)}
    {interestName : Name} (h : Pib.request library toCommand interestName = .command command signer) :
    interestName.length = signedPibInterestSize ∧ decodeSigner interestName = .ok signer ∧
      ∃ param, decodeParam α interestName = .ok param ∧ toCommand param = .ok (.inr command) := by
  unfold Pib.request at h
  split at h
  · cases h
  · rename_i hlen
    refine ⟨not_not.1 hlen, ?_⟩
    dsimp only at h
    split at h
    · cases h
    · cases h
    · rename_i hdecoded
      cases h
      obtain ⟨param, hparam, hdecoded⟩ := bind_eq_ok.1 hdecoded
      obtain ⟨signer', hsigner, hdecoded⟩ := bind_eq_ok.1 hdecoded
      obtain ⟨_, hcommand, hdecoded⟩ := bind_eq_ok.1 hdecoded
      cases hdecoded
      exact ⟨hsigner, param, hparam, hcommand⟩

theorem of_requestOf (h : requestOf texts s e = .command command signer) :
    e.interestName.length = signedPibInterestSize ∧ e.interestName.getD offsetUser [] = s.owner ∧
      decodeSigner e.interestName = .ok signer := by
  have huser : ∀ {verb : Component}, s.filterFor verb <+: e.interestName →
      e.interestName.getD offsetUser [] = s.owner := by
    rintro verb ⟨rest, hrest⟩
    rw [← hrest]
    rfl
  unfold requestOf at h
  split at h
  · rename_i hverb
    exact ⟨(of_request h).1, huser hverb, (of_request h).2.1⟩
  · split at h
    · rename_i hverb
      exact ⟨(of_request h).1, huser hverb, (of_request h).2.1⟩
    · cases h

omit [Encoding.Formats] [SignatureInfos] in
theorem mem_authentic {request : Request} {outcome : Outcome} :
    (command, signer) ∈ request.authentic outcome ↔
      request = .command command signer ∧ ∃ key, outcome = .verified key true := by
  rcases outcome with _ | ⟨key, _ | _⟩ | _
  · simp [Request.authentic]
  · simp [Request.authentic]
  · cases request <;> simp [Request.authentic, eq_comm]
  · simp [Request.authentic]

/-- A command is processed exactly if the signature of its Interest is valid for the current key of the signer. -/
theorem mem_authenticCommand (h : Sound s) :
    (command, signer) ∈ authenticCommand texts s e ↔
      requestOf texts s e = .command command signer ∧ Authentic s.validated.db e.interestName signer := by
  unfold authenticCommand
  rw [mem_authentic]
  refine and_congr_right fun hrequest => ?_
  obtain ⟨hlen, huser, hsigner⟩ := of_requestOf hrequest
  constructor
  · rintro ⟨key, hkey⟩
    obtain ⟨signer', hsigned, hauthentic⟩ := authentic_of_verified h.coherent hkey
    rw [decodeSigner_of_signedBy hsigned] at hsigner
    cases hsigner
    exact hauthentic
  · rintro ⟨signature, key, hd, hl, hkey, hvalid⟩
    refine ⟨key, ?_⟩
    rw [checkPolicy_verified h.coherent h.ready hlen huser hd hl hkey, hvalid]

/-! ## Runs -/

theorem onInterest_of_enabled (he : (machine texts).enabled s e) :
    ∃ packets, onInterest texts e s = some ((machine texts).step s e, packets) := by
  obtain ⟨⟨s', packets⟩, hok⟩ := Option.isSome_iff_exists.1 he
  refine ⟨packets, ?_⟩
  show _ = some (((onInterest texts e s).map Prod.fst).getD s, packets)
  rw [hok]
  rfl

theorem sound_step (h : Sound s) (he : (machine texts).enabled s e) : Sound ((machine texts).step s e) := by
  obtain ⟨packets, hok⟩ := onInterest_of_enabled he
  exact (onInterest_spec h hok).1

/-- The authentic commands of a run, with their signers. -/
def authenticCommands (texts : LibraryTexts) (s : Service) (es : List Received) : List (Command × Name) :=
  (machine texts).log (authenticCommand texts) s es

/-- The service changes the database as `pibService` does under the authentic commands. -/
theorem exec_authentic {es : List Received} (h : Sound s) (hr : (machine texts).Runs s es) :
    pibService.Runs s.validated.db (authenticCommands texts s es) ∧
      pibService.exec s.validated.db (authenticCommands texts s es) = ((machine texts).exec s es).validated.db := by
  refine Machine.simulates (fun s : Service => s.validated.db) (fun s e hs he => sound_step hs he) ?_ h hr
  intro s e hs he
  obtain ⟨packets, hok⟩ := onInterest_of_enabled he
  exact (onInterest_spec hs hok).2

end Service

/-! ## Answers of the service -/

omit [SignatureInfos] in
/-- A key that is decoded is one that the library accepts. -/
theorem isSome_of_decodeKey {o key : PibPublicKey} {b : Block} (h : o.wireDecode b = .ok key) :
    (toPublicKey key.key).isSome = true := by
  simp only [PibPublicKey.wireDecode, bind_eq_ok, Encoding.checkWire_eq_ok, orThrow_eq_ok, Encoding.checkType_eq_ok,
    Prod.exists, Encoding.expect_eq_ok, Encoding.expectEnd_eq_ok] at h
  obtain ⟨_, _, _, _, it, _, b, it', ⟨_, _⟩, name, _, c, rest, ⟨_, _⟩, bits, hbits, _, _, hok⟩ := h
  cases hok
  rw [Certificates.toPublicKey_eq c.value bits hbits]
  exact Option.isSome_iff_exists.2 ⟨bits, hbits⟩

omit [SignatureInfos] in
theorem isSome_of_decodeParam {param : Encoding.UpdateParam} {b : Block}
    (h : Encoding.UpdateParam.wireDecode {} b = .ok param) (ht : param.entityType = Encoding.tlv.publicKey) :
    (toPublicKey param.key.key).isSome = true := by
  simp only [Encoding.UpdateParam.wireDecode, bind_eq_ok] at h
  obtain ⟨-, -, it, -, -, -, h⟩ := h
  split at h
  · cases h
  obtain ⟨o, ho, h⟩ := bind_eq_ok.1 h
  obtain ⟨_, _, h⟩ := bind_eq_ok.1 h
  obtain ⟨_, _, h⟩ := bind_eq_ok.1 h
  obtain ⟨_, _, h⟩ := bind_eq_ok.1 h
  cases h
  unfold Encoding.UpdateParam.decodeEntity at ho
  split at ho
  · obtain ⟨_, -, ho⟩ := bind_eq_ok.1 ho
    cases ho
    cases ht
  split at ho
  · obtain ⟨key, hkey, ho⟩ := bind_eq_ok.1 ho
    cases ho
    exact isSome_of_decodeKey hkey
  split at ho
  · obtain ⟨_, -, ho⟩ := bind_eq_ok.1 ho
    cases ho
    cases ht
  split at ho
  · obtain ⟨_, -, ho⟩ := bind_eq_ok.1 ho
    cases ho
    cases ht
  · cases ho

omit [SignatureInfos] in
theorem UpdateQueryProcessor.holdsKey_command {param : Encoding.UpdateParam} {b : Block}
    (h : Encoding.UpdateParam.wireDecode {} b = .ok param)
    (hok : UpdateQueryProcessor.command param = .ok (.inr command)) : command.HoldsKey := by
  unfold UpdateQueryProcessor.command at hok
  dsimp only at hok
  split at hok
  · obtain ⟨_, -, hok⟩ := bind_eq_ok.1 hok
    obtain ⟨_, -, hok⟩ := bind_eq_ok.1 hok
    cases hok
    trivial
  split at hok
  · obtain ⟨_, -, hok⟩ := bind_eq_ok.1 hok
    cases hok
    trivial
  split at hok
  · rename_i ht
    have hkey : param.getPublicKey = .ok param.key := if_pos ht
    obtain ⟨key, hget, hok⟩ := bind_eq_ok.1 hok
    rw [hkey] at hget
    cases hget
    obtain ⟨_, -, hok⟩ := bind_eq_ok.1 hok
    obtain ⟨bits, hbits, hok⟩ := bind_eq_ok.1 hok
    cases hok
    unfold Encoding.PibPublicKey.getPublicKey at hbits
    split at hbits
    · cases hbits
      exact isSome_of_decodeParam h ht
    · cases hbits
  split at hok
  · obtain ⟨_, -, hok⟩ := bind_eq_ok.1 hok
    obtain ⟨_, -, hok⟩ := bind_eq_ok.1 hok
    obtain ⟨_, -, hok⟩ := bind_eq_ok.1 hok
    cases hok
    trivial
  · cases hok

/-- A command that is read holds a key that the library accepts. -/
theorem holdsKey_of_requestOf (h : Service.requestOf texts s e = .command command signer) : command.HoldsKey := by
  unfold Service.requestOf at h
  split at h
  · obtain ⟨-, -, param, hparam, hcommand⟩ := Service.of_request h
    unfold decodeParam at hparam
    obtain ⟨b, -, hdecode⟩ := bind_eq_ok.1 hparam
    exact UpdateQueryProcessor.holdsKey_command hdecode hcommand
  · split at h
    · obtain ⟨-, -, param, -, hcommand⟩ := Service.of_request h
      cases hcommand
      trivial
    · cases h

namespace Service

/-! ## A new service -/

omit [Encoding.Formats] [SignatureInfos] in
theorem sound_create {owner keyId : Component} {tpmLocator storedLocator : Bytes} {doesKeyExistInTpm : Name → Bool}
    {generated : IdentityCertificate} (h : db.Integrity) (hname : generated.publicKeyName = mgmtKeyName owner keyId)
    (hok : create owner tpmLocator storedLocator doesKeyExistInTpm generated db = .ok s) : Sound s := by
  unfold create at hok
  split at hok
  · cases hok
  rename_i howner
  split at hok
  · cases hok
  split at hok
  · rename_i mgmtCert hmgmt
    cases hok
    obtain ⟨hmgmt, -⟩ := Option.filter_eq_some_iff.1 hmgmt
    obtain ⟨m, hm, rfl⟩ := Option.map_eq_some_iff.1 hmgmt
    have hdb : db.getOwnerName = some m.owner := by unfold Db.getOwnerName; rw [hm]; rfl
    have hsame : db.getOwnerName = some owner := by
      by_contra hne
      exact howner ⟨by rw [hdb]; rfl, hne⟩
    refine ⟨coherent_init h, ⟨hsame, hsame, ?_⟩, hmgmt.symm⟩
    simp [ValidatedDb.init, PibValidator.init, PibValidator.mgmtCertificateChanged, hdb, hmgmt]
  · obtain ⟨db', hupdate, hok⟩ : ∃ db', db.updateMgmtCertificate generated = .ok db' ∧ _ := by
      cases hupdate : db.updateMgmtCertificate generated with
      | error what => rw [hupdate] at hok; cases hok
      | ok db' => rw [hupdate] at hok; exact ⟨db', rfl, hok⟩
    cases hok
    have howner' : db'.getOwnerName = some owner := by
      cases hdb : db.getOwnerName with
      | none => exact getOwnerName_of_none hdb hname hupdate
      | some user =>
        have hsame : db.getOwnerName = some owner := by
          by_contra hne
          exact howner ⟨by rw [hdb]; rfl, hne⟩
        exact getOwnerName_updateMgmtCertificate hsame hupdate
    have hmgmt := getMgmtCertificate_updateMgmtCertificate hupdate
    refine ⟨coherent_mgmtCertificateChanged (coherent_init h) hupdate, ⟨howner', howner', ?_⟩, hmgmt.symm⟩
    simp [PibValidator.mgmtCertificateChanged, howner', hmgmt]

omit [Encoding.Formats] [SignatureInfos] in
/-- A new service has its database, with the generated certificate if that is needed. -/
theorem db_create {owner : Component} {tpmLocator storedLocator : Bytes} {doesKeyExistInTpm : Name → Bool}
    {generated : IdentityCertificate}
    (hok : create owner tpmLocator storedLocator doesKeyExistInTpm generated db = .ok s) :
    s.validated.db = db ∨ db.updateMgmtCertificate generated = .ok s.validated.db := by
  unfold create at hok
  split at hok
  · cases hok
  split at hok
  · cases hok
  split at hok
  · cases hok
    exact .inl rfl
  · cases hupdate : db.updateMgmtCertificate generated with
    | error what => rw [hupdate] at hok; cases hok
    | ok db' => rw [hupdate] at hok; cases hok; exact .inr rfl

omit [Encoding.Formats] [SignatureInfos] in
/-- A new service has the contents of its database. -/
theorem contents_create {owner : Component} {tpmLocator storedLocator : Bytes} {doesKeyExistInTpm : Name → Bool}
    {generated : IdentityCertificate} (h : db.Integrity) (h' : s.validated.db.Integrity)
    (hok : create owner tpmLocator storedLocator doesKeyExistInTpm generated db = .ok s) :
    s.validated.db.contents h' = db.contents h := by
  rcases db_create hok with heq | hupdate
  · exact Db.contents_congr (by simp [heq]) (by simp [heq]) (by simp [heq])
  · obtain ⟨m, heq⟩ := Db.updateMgmtCertificate_eq hupdate
    exact Db.contents_congr (by rw [heq]; exact fun _ => Iff.rfl) (by rw [heq]; exact fun _ => rfl)
      (by rw [heq]; exact fun _ => rfl)

/-! ## Runs of a new service -/

section
variable {owner keyId : Component} {tpmLocator storedLocator : Bytes} {doesKeyExistInTpm : Name → Bool}
  {generated : IdentityCertificate} {es : List Received} {pb : Block}

/-- In every run of a new service, exactly the commands whose signatures are valid for the current keys of their
signers are processed, and the database holds what the accepted ones among them make of its contents, in their
order. -/
theorem contents_served (h : db.Integrity) (hname : generated.publicKeyName = mgmtKeyName owner keyId)
    (hok : create owner tpmLocator storedLocator doesKeyExistInTpm generated db = .ok s)
    (hr : (machine texts).Runs s es) :
    (machine texts).Each (fun s e => ∀ command signer, (command, signer) ∈ authenticCommand texts s e ↔
        requestOf texts s e = .command command signer ∧ Authentic s.validated.db e.interestName signer) s es ∧
      ∃ h', ((machine texts).exec s es).validated.db.contents h' =
        (acceptedCommands s.validated.db (authenticCommands texts s es)).foldl Contents.apply (db.contents h) := by
  have hs := sound_create h hname hok
  obtain ⟨hruns, hexec⟩ := exec_authentic hs hr
  have hsound : (machine texts).Always Sound s es := Machine.always_of_step (fun _ _ hs he => sound_step hs he) hs hr
  refine ⟨Machine.each_of_always (fun _ _ hs _ _ _ _ => mem_authenticCommand hs) hr hsound, ?_⟩
  rw [← hexec, ← contents_create h hs.coherent.integrity hok]
  exact contents_exec hs.coherent.integrity _ hruns

theorem holdsKey_authenticCommands (s : Service) (es : List Received) :
    ∀ c ∈ authenticCommands texts s es, c.1.HoldsKey := by
  rintro ⟨command, signer⟩ hc
  obtain ⟨s', e, -, hmem⟩ := Machine.of_mem_log hc
  exact holdsKey_of_requestOf (mem_authentic.1 hmem).1

/-- What is put to the Face is a packet in which the reply is read. -/
def PutsReply (e : Received) (packets : List Packet) (r : Reply) : Prop :=
  ∃ content, packets = [.data (e.interestName ++ [e.version]) content] ∧ r.IsReadFrom content

omit [SignatureInfos] in
theorem putsReply_of_answeredWith {answer : Except Error (Option Block)} {r : Reply} {result : Option Block}
    (h : AnsweredWith answer r) (hresult : answer.toOption = some result) : PutsReply e (returnResult e result) r := by
  obtain ⟨hanswer, hread⟩ := h
  cases answer with
  | error e => cases hresult
  | ok result' =>
    cases hresult
    cases hr : r.encode with
    | error e => rw [hr] at hanswer; cases hanswer
    | ok b =>
      rw [hr] at hanswer
      cases hanswer
      exact ⟨b, rfl, hread b rfl⟩

/-- After any run of a new service, a client of get reads in the packet that it is sent what the accepted commands
have made of the contents under the name it asks for, or an error. -/
theorem get_served (h : db.Integrity) (hkeys : (db.contents h).HoldsKeys)
    (hname : generated.publicKeyName = mgmtKeyName owner keyId)
    (hok : create owner tpmLocator storedLocator doesKeyExistInTpm generated db = .ok s)
    (hr : (machine texts).Runs s es) {o : GetParam} (hu : o.targetType ≠ typeUser) (hpb : encodeBlock o = .ok pb)
    (hc : Carries e.interestName pb) (hverb : ((machine texts).exec s es).filterFor getVerb <+: e.interestName)
    (hanswer : onInterest texts e ((machine texts).exec s es) = some (s', packets)) :
    s' = (machine texts).exec s es ∧ ∃ r, ((acceptedCommands s.validated.db (authenticCommands texts s es)).foldl
      Contents.apply (db.contents h)).Replies o r ∧ PutsReply e packets r := by
  have hs := sound_create h hname hok
  have hcontents := contents_create h hs.coherent.integrity hok
  obtain ⟨hruns, hexec⟩ := exec_authentic hs hr
  unfold onInterest at hanswer
  rw [if_neg fun hmgmt => absurd (filterFor_unique hmgmt hverb) (by decide), if_pos hverb] at hanswer
  obtain ⟨result, hresult, hanswer⟩ := Option.bind_eq_some_iff.1 hanswer
  cases hanswer
  obtain ⟨r, hreplies, hanswered⟩ := get_exec hs.coherent.integrity (by rw [hcontents]; exact hkeys) hruns
    (holdsKey_authenticCommands s es) hu hpb hc
  rw [hexec] at hanswered
  rw [hcontents] at hreplies
  exact ⟨rfl, r, hreplies, putsReply_of_answeredWith hanswered hresult⟩

/-- And a client of list reads the names that they have left under the origin, each once. -/
theorem list_served (h : db.Integrity) (hname : generated.publicKeyName = mgmtKeyName owner keyId)
    (hok : create owner tpmLocator storedLocator doesKeyExistInTpm generated db = .ok s)
    (hr : (machine texts).Runs s es) {o : ListParam} (hpb : encodeBlock o = .ok pb)
    (hc : Carries e.interestName pb) (hverb : ((machine texts).exec s es).filterFor listVerb <+: e.interestName)
    (hanswer : onInterest texts e ((machine texts).exec s es) = some (s', packets)) :
    s' = (machine texts).exec s es ∧ ∃ r, ((acceptedCommands s.validated.db (authenticCommands texts s es)).foldl
      Contents.apply (db.contents h)).Lists o r ∧ PutsReply e packets r := by
  have hs := sound_create h hname hok
  have hcontents := contents_create h hs.coherent.integrity hok
  obtain ⟨hruns, hexec⟩ := exec_authentic hs hr
  unfold onInterest at hanswer
  rw [if_neg fun hmgmt => absurd (filterFor_unique hmgmt hverb) (by decide),
    if_neg fun hget => absurd (filterFor_unique hget hverb) (by decide),
    if_neg fun hdefault => absurd (filterFor_unique hdefault hverb) (by decide), if_pos hverb] at hanswer
  obtain ⟨result, hresult, hanswer⟩ := Option.bind_eq_some_iff.1 hanswer
  cases hanswer
  obtain ⟨r, hlists, hanswered⟩ := list_exec hs.coherent.integrity hruns hpb hc
  rw [hexec] at hanswered
  rw [hcontents] at hlists
  exact ⟨rfl, r, hlists, putsReply_of_answeredWith hanswered hresult⟩

end

end Service

end

/-! ## An example -/

section
local instance servedNames : Certificates := .documented

local instance servedFormats : Encoding.Formats := .documented

/-- The name in the second element of a signature info. -/
def readSignatureInfo (info : Component) : Except Error (Option KeyLocator) :=
  match (Block.ofWire info).bind Block.elements with
  | none => .error .library
  | some (_ :: locator :: _) =>
    match locator.fromValue.bind fun b => Encoding.readNameValue b.value with
    | none => .ok (some .other)
    | some name => .ok (some (.name name))
  | some _ => .ok none

/-- A signature is valid if its value is the octet 1. -/
local instance servedSignatures : SignatureInfos where
  nameToUri _ := ""
  componentToUri _ := ""
  decodeSignature info value :=
    match readSignatureInfo info with
    | .error _ => .error .signature
    | .ok locator => .ok ⟨locator, value⟩
  verifySignature _ signature _ := signature.value = [23, 1, 1]
  decodeSignatureInfo := readSignatureInfo
  decodeSignatureInfo_eq := fun {info value signature} h => by
    cases hinfo : readSignatureInfo info with
    | error e => rw [hinfo] at h; cases h
    | ok locator => rw [hinfo] at h; cases h; rfl

namespace Service

/-- A service for the user `u` on a new database. -/
def serviceOfU : Service :=
  ⟨"u", [], some mgmtCertOfU, ⟨{ Db.empty with mgmt := some ⟨"u", mgmtCertOfU⟩ },
    (PibValidator.init Db.empty).mgmtCertificateChanged { Db.empty with mgmt := some ⟨"u", mgmtCertOfU⟩ }⟩⟩

theorem create_serviceOfU : create "u" [] [] (fun _ => false) mgmtCertOfU Db.empty = .ok serviceOfU := rfl

theorem publicKeyName_mgmtCertOfU : mgmtCertOfU.publicKeyName = mgmtKeyName "u" "m" := rfl

def texts : LibraryTexts := ⟨[], ""⟩

/-- A signature info with the name of the signer in its key locator. -/
def signatureInfoOf (signer : Name) : Component :=
  let nameBlock : Block := { type := 7, value := wires (Encoding.componentBlocks signer) }
  let locatorBlock : Block := { type := 28, value := nameBlock.wire }
  Block.wire { type := 22, value := wires [{ type := 27, value := [1] }, locatorBlock] }

/-- An update with the key `/a/k` in the name of the management key. -/
def updateOfK (signatureValue : Component) : Received :=
  ⟨["localhost", "pib", "u", "update", [131, 16, 146, 11, 7, 6, 8, 1, 97, 8, 1, 107, 148, 1, 48, 149, 1, 0], "t", "n",
    signatureInfoOf (getPrefix mgmtCertOfU.name), signatureValue], "v"⟩

def getK : Received :=
  ⟨["localhost", "pib", "u", "get", [128, 11, 151, 1, 2, 7, 6, 8, 1, 97, 8, 1, 107]], "v"⟩

def listKeysOfA : Received := ⟨["localhost", "pib", "u", "list", [130, 8, 151, 1, 1, 7, 3, 8, 1, 97]], "v"⟩

/-- The key is asked for, an update is forged, and then it is signed. -/
def someInterests : List Received := [getK, updateOfK [23, 1, 0], updateOfK [23, 1, 1]]

theorem runs_someInterests : (machine texts).Runs serviceOfU someInterests := by decide +kernel

theorem contents_served_someInterests :
    (machine texts).Each (fun s e => ∀ command signer, (command, signer) ∈ authenticCommand texts s e ↔
        requestOf texts s e = .command command signer ∧ Authentic s.validated.db e.interestName signer)
      serviceOfU someInterests ∧
    ∃ h', ((machine texts).exec serviceOfU someInterests).validated.db.contents h' =
      (acceptedCommands serviceOfU.validated.db (authenticCommands texts serviceOfU someInterests)).foldl
        Contents.apply (Db.empty.contents Db.integrity_empty) :=
  contents_served Db.integrity_empty publicKeyName_mgmtCertOfU create_serviceOfU runs_someInterests

theorem get_served_someInterests :
    ∃ packets, onInterest texts getK ((machine texts).exec serviceOfU someInterests) =
        some ((machine texts).exec serviceOfU someInterests, packets) ∧
      ∃ r, ((acceptedCommands serviceOfU.validated.db (authenticCommands texts serviceOfU someInterests)).foldl
        Contents.apply (Db.empty.contents Db.integrity_empty)).Replies ⟨Encoding.typeKey, ["a", "k"]⟩ r ∧
          PutsReply getK packets r := by
  have he : (machine texts).enabled ((machine texts).exec serviceOfU someInterests) getK := by decide +kernel
  have hpb : encodeBlock (⟨Encoding.typeKey, ["a", "k"]⟩ : GetParam) =
      .ok { type := 128, value := [151, 1, 2, 7, 6, 8, 1, 97, 8, 1, 107] } := rfl
  obtain ⟨packets, hanswer⟩ := onInterest_of_enabled he
  obtain ⟨hs, hr⟩ := get_served Db.integrity_empty nofun publicKeyName_mgmtCertOfU create_serviceOfU
    runs_someInterests (by decide) hpb ⟨rfl, rfl⟩ (by decide +kernel) hanswer
  rw [hs] at hanswer
  exact ⟨packets, hanswer, hr⟩

theorem list_served_someInterests :
    ∃ packets, onInterest texts listKeysOfA ((machine texts).exec serviceOfU someInterests) =
        some ((machine texts).exec serviceOfU someInterests, packets) ∧
      ∃ r, ((acceptedCommands serviceOfU.validated.db (authenticCommands texts serviceOfU someInterests)).foldl
        Contents.apply (Db.empty.contents Db.integrity_empty)).Lists ⟨Encoding.typeId, ["a"]⟩ r ∧
          PutsReply listKeysOfA packets r := by
  have he : (machine texts).enabled ((machine texts).exec serviceOfU someInterests) listKeysOfA := by decide +kernel
  have hpb : encodeBlock (⟨Encoding.typeId, ["a"]⟩ : ListParam) =
      .ok { type := 130, value := [151, 1, 1, 7, 3, 8, 1, 97] } := rfl
  obtain ⟨packets, hanswer⟩ := onInterest_of_enabled he
  obtain ⟨hs, hr⟩ := list_served Db.integrity_empty publicKeyName_mgmtCertOfU create_serviceOfU runs_someInterests
    hpb ⟨rfl, rfl⟩ (by decide +kernel) hanswer
  rw [hs] at hanswer
  exact ⟨packets, hanswer, hr⟩

end Service

end

end NdnTools.Pib
