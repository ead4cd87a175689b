/-
The queries that read the PIB (`get-query-processor.cpp`, `list-query-processor.cpp`), from the name of
an Interest to the block it is answered with. The text of an exception of the library is a parameter.

A client that encodes the parameters of a query and decodes the answer finds in it what the accepted
commands have left in the PIB.
-/
import NdnTools.Pib.CertPublisher
import NdnTools.Pib.Contents
import NdnTools.Pib.Encoding.RoundTrip
import NdnTools.Pib.Validator

namespace NdnTools.Pib

open Tlv
open Encoding (GetParam ListParam PibIdentity PibPublicKey PibCertificate PibUser PibNameList typeUser typeId typeKey
  typeCert callsForName Supported encodeNameOf encodeNameOf_error encodeType)

section
variable [Certificates]

/-! ## Answers -/

def errWrongParam : UInt32 := 3
def errNonExistingId : UInt32 := 129
def errNonExistingKey : UInt32 := 130
def errNonExistingCert : UInt32 := 131

/-- The object that a query is answered with. -/
inductive Reply
  | error (errCode : UInt32) (msg : Bytes)
  | identity (identity : Name)
  | publicKey (keyName : Name) (key : PublicKey)
  | certificate (certificate : IdentityCertificate)
  | user (mgmtCert : Option IdentityCertificate) (tpmLocator : Bytes)
  | names (names : List Name)
  deriving DecidableEq

variable [Encoding.Formats]

/-- `wireEncode` of the object. -/
def Reply.encode : Reply → Except Error Block
  | error errCode msg => encodeBlock (⟨errCode, msg⟩ : Encoding.PibError)
  | identity name => encodeBlock (⟨name⟩ : PibIdentity)
  | publicKey keyName key => encodeBlock (⟨true, keyName, key⟩ : PibPublicKey)
  | certificate cert => encodeBlock (⟨true, some cert⟩ : PibCertificate)
  | user mgmtCert tpmLocator => encodeBlock (⟨mgmtCert, tpmLocator⟩ : PibUser)
  | names l => encodeBlock (⟨l⟩ : PibNameList)

/-- What a new object of the class reads in a block is the reply. -/
def Reply.IsReadFrom (b : Block) : Reply → Prop
  | error errCode msg => WireFormat.wireDecode create b = .ok (⟨errCode, msg⟩ : Encoding.PibError)
  | identity name => WireFormat.wireDecode create b = .ok (⟨name⟩ : PibIdentity)
  | publicKey keyName key => WireFormat.wireDecode create b = .ok (⟨true, keyName, key⟩ : PibPublicKey)
  | certificate cert => WireFormat.wireDecode create b = .ok (⟨true, some cert⟩ : PibCertificate)
  | user mgmtCert tpmLocator => WireFormat.wireDecode create b = .ok (⟨mgmtCert, tpmLocator⟩ : PibUser)
  | names l => WireFormat.wireDecode create b = .ok (⟨l⟩ : PibNameList)

/-- A key in the reply is one that the library accepts. -/
def Reply.HoldsKey : Reply → Prop
  | publicKey _ key => (toPublicKey key).isSome = true
  | _ => True

/-! ## Processors -/

def offsetParam : ℕ := 4

/-- `MIN_PIB_INTEREST_SIZE`, which is also the length of each query. -/
def minPibInterestSize : ℕ := 5

/-- `param.wireDecode(interestName.get(OFFSET_PARAM).blockFromValue())` -/
def decodeParam (α : Type) [WireFormat α] (interestName : Name) : Except Error α := do
  WireFormat.wireDecode create (← orThrow (Block.ofWire (interestName.getD offsetParam [])))

/-- `e.what()`, which for the library is `library`. -/
def what (library : Bytes) : Error → Bytes
  | .library => library
  | .thrown what => (what : Component)

/-- `operator()` of a processor of queries: nothing for a malformed Interest, and otherwise the block of the
reply, which is an error for parameters that are not decoded. -/
def answerQuery {α : Type} [WireFormat α] (library : Bytes) (process : α → Except Error (Option Reply))
    (interestName : Name) : Except Error (Option Block) :=
  if interestName.length ≠ minPibInterestSize then .ok none
  else
    match decodeParam α interestName with
    | .error e => do
      return some (← (Reply.error errWrongParam (("error in parsing param: " : Component) ++ what library e)).encode)
    | .ok param => do
      match ← process param with
      | none => return none
      | some reply => return some (← reply.encode)

namespace GetQueryProcessor

def processGetIdQuery (db : Db) (param : GetParam) : Except Error Reply := do
  let targetName ← param.getTargetName
  if ¬ db.hasIdentity targetName then return .error errNonExistingId ("requested id does not exist" : Component)
  else return .identity targetName

def processGetKeyQuery (db : Db) (param : GetParam) : Except Error Reply := do
  let targetName ← param.getTargetName
  if targetName = [] then return .error errWrongParam ("key name does not have id-component" : Component)
  else
    match db.getKey targetName with
    | none => return .error errNonExistingKey ("requested key does not exist" : Component)
    | some key => return .publicKey targetName key

def processGetCertQuery (db : Db) (param : GetParam) : Except Error Reply := do
  match db.getCertificate (← param.getTargetName) with
  | none => return .error errNonExistingCert ("requested certificate does not exist" : Component)
  | some certificate => return .certificate certificate

/-- The certificate is there if there is an owner. -/
def processGetUserQuery (db : Db) (tpmLocator : Bytes) : Except Error Reply :=
  return .user db.getMgmtCertificate tpmLocator

/-- The switch over the type, for an Interest with this user in its name. -/
def process (db : Db) (tpmLocator : Bytes) (user : Component) (param : GetParam) : Except Error (Option Reply) :=
  if param.targetType = typeId then some <$> processGetIdQuery db param
  else if param.targetType = typeKey then some <$> processGetKeyQuery db param
  else if param.targetType = typeCert then some <$> processGetCertQuery db param
  else if param.targetType = typeUser then
    if some user ≠ db.getOwnerName then .ok none else some <$> processGetUserQuery db tpmLocator
  else return some (.error errWrongParam
    (("requested type is not supported:" : Component) ++ (toString param.targetType : Component)))

/-- `operator()` -/
def operator (library : Bytes) (db : Db) (tpmLocator : Bytes) (interestName : Name) : Except Error (Option Block) :=
  answerQuery library (process db tpmLocator (interestName.getD offsetUser [])) interestName

end GetQueryProcessor

namespace ListQueryProcessor

/-- The switch over the type. -/
def process (db : Db) (param : ListParam) : Except Error (Option Reply) :=
  if param.originType = typeUser then return some (.names db.listIdentities)
  else if param.originType = typeId then do return some (.names (db.listKeyNamesOfIdentity (← param.getOriginName)))
  else if param.originType = typeKey then do
    let keyName ← param.getOriginName
    if keyName = [] then return some (.error errWrongParam ("key name must contain key id component" : Component))
    else return some (.names (db.listCertNamesOfKey keyName))
  else return some (.error errWrongParam
    (("origin type is not supported: " : Component) ++ (toString param.originType : Component)))

/-- `operator()` -/
def operator (library : Bytes) (db : Db) (interestName : Name) : Except Error (Option Block) :=
  answerQuery library (process db) interestName

end ListQueryProcessor

/-! ## Replies are read back -/

variable {library : Bytes} {db : Db} {tpmLocator : Bytes} {interestName : Name} {b pb : Block}

theorem Reply.isReadFrom_encode : ∀ {r : Reply}, r.HoldsKey → r.encode = .ok b → r.IsReadFrom b := by
  intro r hkey hb
  cases r with
  | error errCode msg =>
    obtain ⟨rfl, hlen⟩ := encodeBlock_ok (Encoding.PibError.writes ⟨errCode, msg⟩) (by decide) hb
    exact Encoding.PibError.wireDecode_wires _ _ hlen
  | identity name =>
    obtain ⟨rfl, hlen⟩ := encodeBlock_ok (PibIdentity.writes ⟨name⟩) (by decide) hb
    exact PibIdentity.wireDecode_wires _ _ hlen
  | publicKey keyName key =>
    obtain ⟨rfl, hlen⟩ := encodeBlock_ok (PibPublicKey.writes ⟨true, keyName, key⟩) (by decide) hb
    exact PibPublicKey.wireDecode_wires (o := ⟨true, keyName, key⟩) ⟨rfl, hkey⟩ _ hlen
  | certificate cert =>
    obtain ⟨rfl, hlen⟩ := encodeBlock_ok (PibCertificate.writes (o := ⟨true, some cert⟩) rfl) (by decide) hb
    exact PibCertificate.wireDecode_wires _ hlen
  | user mgmtCert tpmLocator =>
    cases mgmtCert with
    | none =>
      have herror : encodeBlock (⟨none, tpmLocator⟩ : PibUser) = .error .library :=
        encodeBlock_error (PibUser.wireEncode_error rfl)
      cases hb.symm.trans herror
    | some cert =>
      obtain ⟨rfl, hlen⟩ := encodeBlock_ok (PibUser.writes (o := ⟨some cert, tpmLocator⟩) rfl) (by decide) hb
      exact PibUser.wireDecode_wires rfl hlen
  | names l =>
    obtain ⟨rfl, hlen⟩ := encodeBlock_ok (PibNameList.writes ⟨l⟩) (by decide) hb
    exact PibNameList.wireDecode_wires ⟨l⟩ hlen

/-! ## Parameters are read back -/

/-- The Interest carries the block of the parameters. -/
structure Carries (interestName : Name) (pb : Block) : Prop where
  length : interestName.length = minPibInterestSize
  param : interestName.getD offsetParam [] = pb.wire

omit [Certificates] [Encoding.Formats] in
theorem decodeParam_of_carries {α : Type} [WireFormat α] {o : α} {P : α → Prop}
    {Forgets : α → Block → Prop} {Same : α → α → Prop} (htrip : RoundTrips P Forgets Same) (ho : P o)
    (hpb : encodeBlock o = .ok pb) (hwire : Block.ofWire pb.wire = some pb) (hc : Carries interestName pb) :
    ∃ d, decodeParam α interestName = .ok d ∧ Same d o := by
  obtain ⟨d, hd, hsame⟩ := htrip.decodes ho hpb
  refine ⟨d, ?_, hsame⟩
  unfold decodeParam
  rw [hc.param, hwire]
  exact hd

/-- The query is answered with the reply, which is read in the block of the answer. -/
def AnsweredWith (answer : Except Error (Option Block)) (r : Reply) : Prop :=
  answer = some <$> r.encode ∧ ∀ b, answer = .ok (some b) → r.IsReadFrom b

theorem answeredWith {r : Reply} {answer : Except Error (Option Block)} (h : answer = some <$> r.encode)
    (hkey : r.HoldsKey) : AnsweredWith answer r := by
  refine ⟨h, fun b hb => Reply.isReadFrom_encode hkey ?_⟩
  rw [h] at hb
  cases hr : r.encode with
  | error e => rw [hr] at hb; cases hb
  | ok b' => rw [hr] at hb; cases hb; rfl

/-- Parameters whose type is not supported are not encoded. -/
theorem supported_of_encodeBlock {α : Type} [WireFormat α] {o : α} {type : UInt32} {name : Name} {t : ℕ}
    {unsupported : String}
    (henc : WireFormat.wireEncode o = do
      let totalLength ← encodeNameOf unsupported type name
      prependHeader t (totalLength + (← encodeType type)))
    (hpb : encodeBlock o = .ok pb) : Supported type := by
  by_contra h
  have herror : ∀ buffer, WireFormat.wireEncode o buffer = .error _ := fun buffer => by
    rw [henc]
    exact bind_of_error (encodeNameOf_error h unsupported name) _ buffer
  cases hpb.symm.trans (encodeBlock_error herror)

theorem answerQuery_of_decoded {α : Type} [WireFormat α] {process : α → Except Error (Option Reply)} {d : α}
    (hlen : interestName.length = minPibInterestSize) (hd : decodeParam α interestName = .ok d) {r : Reply}
    (hprocess : process d = .ok (some r)) : answerQuery library process interestName = some <$> r.encode := by
  unfold answerQuery
  rw [if_neg (not_not.2 hlen), hd]
  simp only [hprocess]
  rfl

/-! ## Get -/

/-- What the contents reply to a query for an identity, a key or a certificate. -/
inductive Contents.Replies (c : Contents) (o : GetParam) : Reply → Prop
  | identity (ht : o.targetType = typeId) (h : o.targetName ∈ c.identities) : Replies c o (.identity o.targetName)
  | noIdentity (ht : o.targetType = typeId) (h : o.targetName ∉ c.identities) (msg : Bytes) :
    Replies c o (.error errNonExistingId msg)
  | key (ht : o.targetType = typeKey) {key : PublicKey} (h : c.keys o.targetName = some key) :
    Replies c o (.publicKey o.targetName key)
  | noKey (ht : o.targetType = typeKey) (hne : o.targetName ≠ []) (h : c.keys o.targetName = none) (msg : Bytes) :
    Replies c o (.error errNonExistingKey msg)
  | noName (ht : o.targetType = typeKey) (h : o.targetName = []) (msg : Bytes) : Replies c o (.error errWrongParam msg)
  | certificate (ht : o.targetType = typeCert) {cert : IdentityCertificate}
      (h : c.certificates o.targetName = some cert) :
    Replies c o (.certificate cert)
  | noCertificate (ht : o.targetType = typeCert) (h : c.certificates o.targetName = none) (msg : Bytes) :
    Replies c o (.error errNonExistingCert msg)

/-- Each key is one that the library accepts. -/
def Contents.HoldsKeys (c : Contents) : Prop := ∀ n key, c.keys n = some key → (toPublicKey key).isSome = true

namespace GetQueryProcessor

omit [Encoding.Formats] in
/-- The answer is the same for parameters that an observer cannot tell apart. -/
theorem process_same {d o : GetParam} (h : GetParam.Same d o) (user : Component) :
    process db tpmLocator user d = process db tpmLocator user o := by
  unfold process processGetIdQuery processGetKeyQuery processGetCertQuery
  rw [h.targetType, h.targetName]

omit [Encoding.Formats] in
theorem process_replies (h : db.Integrity) {o : GetParam} (ho : Supported o.targetType)
    (hu : o.targetType ≠ typeUser) (user : Component) :
    ∃ r, (db.contents h).Replies o r ∧ process db tpmLocator user o = .ok (some r) := by
  have hname : o.getTargetName = .ok o.targetName := if_pos (ho.resolve_right hu)
  have htype := ho.resolve_right hu
  simp only [callsForName, decide_eq_true_iff] at htype
  unfold process
  rcases htype with ht | ht | ht
  · rw [if_pos ht]
    unfold processGetIdQuery
    simp only [hname, bind, Except.bind]
    by_cases hi : db.hasIdentity o.targetName
    · exact ⟨_, .identity ht hi, by rw [if_neg (not_not.2 hi)]; rfl⟩
    · have hno : o.targetName ∉ (db.contents h).identities := hi
      exact ⟨_, .noIdentity ht hno _, by rw [if_pos hi]; rfl⟩
  · rw [if_neg (by rw [ht]; decide), if_pos ht]
    unfold processGetKeyQuery
    simp only [hname, bind, Except.bind]
    by_cases hne : o.targetName = []
    · exact ⟨_, .noName ht hne _, by rw [if_pos hne]; rfl⟩
    · rw [if_neg hne]
      cases hkey : db.getKey o.targetName with
      | none => exact ⟨_, .noKey ht hne hkey _, rfl⟩
      | some key => exact ⟨_, .key ht hkey, rfl⟩
  · rw [if_neg (by rw [ht]; decide), if_neg (by rw [ht]; decide), if_pos ht]
    unfold processGetCertQuery
    simp only [hname, bind, Except.bind]
    cases hcert : db.getCertificate o.targetName with
    | none => exact ⟨_, .noCertificate ht hcert _, rfl⟩
    | some cert => exact ⟨_, .certificate ht hcert, rfl⟩

end GetQueryProcessor

omit [Encoding.Formats] in
theorem Contents.Replies.holdsKey {c : Contents} {o : GetParam} {r : Reply} (h : c.Replies o r) (hc : c.HoldsKeys) :
    r.HoldsKey := by
  cases h with
  | key _ h => exact hc _ _ h
  | _ => trivial

/-- A query for what the contents have is answered with it, and any other with an error. -/
theorem GetQueryProcessor.operator_replies (h : db.Integrity) (hkeys : (db.contents h).HoldsKeys) {o : GetParam}
    (hu : o.targetType ≠ typeUser) (hpb : encodeBlock o = .ok pb) (hc : Carries interestName pb) :
    ∃ r, (db.contents h).Replies o r ∧ AnsweredWith (operator library db tpmLocator interestName) r := by
  have ho : Supported o.targetType := supported_of_encodeBlock rfl hpb
  have hwire := ofWire_encodeBlock (Encoding.writes_target ho _ Encoding.tlv.getParam o.targetName) (by decide) hpb
  obtain ⟨d, hd, hsame⟩ := decodeParam_of_carries Encoding.GetParam.roundTrips trivial hpb hwire hc
  obtain ⟨r, hr, hprocess⟩ : ∃ r, (db.contents h).Replies o r ∧
      process db tpmLocator (interestName.getD offsetUser []) o = .ok (some r) := process_replies h ho hu _
  refine ⟨r, hr, answeredWith (answerQuery_of_decoded hc.length hd ?_) (hr.holdsKey hkeys)⟩
  rw [process_same hsame]
  exact hprocess

/-! ## List -/

/-- What the contents reply to a query of a list. -/
inductive Contents.Lists (c : Contents) (o : ListParam) : Reply → Prop
  | identities (ht : o.originType = typeUser) {l : List Name} (hl : l.Nodup) (h : ∀ n, n ∈ l ↔ n ∈ c.identities) :
    Lists c o (.names l)
  | keys (ht : o.originType = typeId) {l : List Name} (hl : l.Nodup)
    (h : ∀ n, n ∈ l ↔ (c.keys n).isSome = true ∧ getPrefix n = o.originName) : Lists c o (.names l)
  | certificates (ht : o.originType = typeKey) (hne : o.originName ≠ []) {l : List Name} (hl : l.Nodup)
    (h : ∀ n, n ∈ l ↔ ∃ cert, c.certificates n = some cert ∧ cert.publicKeyName = o.originName) : Lists c o (.names l)
  | noName (ht : o.originType = typeKey) (h : o.originName = []) (msg : Bytes) : Lists c o (.error errWrongParam msg)
  | unsupported (ht : o.originType = typeCert) (msg : Bytes) : Lists c o (.error errWrongParam msg)

omit [Encoding.Formats] in
theorem mem_listKeyNamesOfIdentity (h : db.Integrity) {identity n : Name} :
    n ∈ db.listKeyNamesOfIdentity identity ↔ (db.getKey n).isSome = true ∧ getPrefix n = identity := by
  rw [← Db.hasKey_iff]
  simp only [Db.listKeyNamesOfIdentity, List.mem_map, List.mem_filter, decide_eq_true_iff]
  constructor
  · rintro ⟨k, ⟨hk, i, hi, hs, rfl⟩, rfl⟩
    obtain ⟨-, j, hj, hjd, hjn⟩ := h.keyOf k hk
    rw [← hjn, h.identities.eq_of_id hi hj (hs.trans hjd.symm)]
    exact ⟨⟨k, hk, rfl⟩, rfl⟩
  · rintro ⟨⟨k, hk, rfl⟩, rfl⟩
    obtain ⟨-, j, hj, hjd, hjn⟩ := h.keyOf k hk
    exact ⟨k, ⟨hk, j, hj, hjd, hjn⟩, rfl⟩

omit [Encoding.Formats] in
theorem mem_listCertNamesOfKey (h : db.Integrity) {keyName n : Name} :
    n ∈ db.listCertNamesOfKey keyName ↔ ∃ cert, db.getCertificate n = some cert ∧ cert.publicKeyName = keyName := by
  simp only [Db.listCertNamesOfKey, List.mem_map, List.mem_filter, decide_eq_true_iff]
  constructor
  · rintro ⟨c, ⟨hc, k, hk, hs, rfl⟩, rfl⟩
    obtain ⟨-, l, hl, hld, hln⟩ := h.certOf c hc
    refine ⟨c.data, h.certificates.data_row.2 ⟨c, hc, rfl, rfl⟩, ?_⟩
    rw [← hln, h.keys.eq_of_id hk hl (hs.trans hld.symm)]
  · rintro ⟨cert, hcert, rfl⟩
    obtain ⟨c, hc, rfl, rfl⟩ := h.certificates.data_row.1 hcert
    obtain ⟨-, l, hl, hld, hln⟩ := h.certOf c hc
    exact ⟨c, ⟨hc, l, hl, hld, hln⟩, rfl⟩

namespace ListQueryProcessor

omit [Encoding.Formats] in
theorem process_same {d o : ListParam} (h : ListParam.Same d o) : process db d = process db o := by
  unfold process
  rw [h.originType, h.originName]

omit [Encoding.Formats] in
theorem process_lists (h : db.Integrity) {o : ListParam} (ho : Supported o.originType) :
    ∃ r, (db.contents h).Lists o r ∧ process db o = .ok (some r) := by
  by_cases hu : o.originType = typeUser
  · refine ⟨_, .identities hu h.identities.names fun n => ?_, if_pos hu⟩
    exact List.mem_map
  have hname : o.getOriginName = .ok o.originName := if_pos (ho.resolve_right hu)
  have htype := ho.resolve_right hu
  simp only [callsForName, decide_eq_true_iff] at htype
  unfold process
  rw [if_neg hu]
  simp only [hname, bind, Except.bind]
  rcases htype with ht | ht | ht
  · rw [if_pos ht]
    have hnodup : (db.listKeyNamesOfIdentity o.originName).Nodup := (List.filter_sublist.map _).nodup h.keys.names
    exact ⟨_, .keys ht hnodup fun _ => mem_listKeyNamesOfIdentity h, rfl⟩
  · rw [if_neg (by rw [ht]; decide), if_pos ht]
    by_cases hne : o.originName = []
    · exact ⟨_, .noName ht hne _, by rw [if_pos hne]; rfl⟩
    · have hnodup : (db.listCertNamesOfKey o.originName).Nodup :=
        (List.filter_sublist.map _).nodup h.certificates.names
      exact ⟨_, .certificates ht hne hnodup fun _ => mem_listCertNamesOfKey h, by rw [if_neg hne]; rfl⟩
  · rw [if_neg (by rw [ht]; decide), if_neg (by rw [ht]; decide)]
    exact ⟨_, .unsupported ht _, rfl⟩

end ListQueryProcessor

/-- A query is answered with the names that the contents have under the origin, each once. -/
theorem ListQueryProcessor.operator_lists (h : db.Integrity) {o : ListParam} (hpb : encodeBlock o = .ok pb)
    (hc : Carries interestName pb) :
    ∃ r, (db.contents h).Lists o r ∧ AnsweredWith (operator library db interestName) r := by
  have ho : Supported o.originType := supported_of_encodeBlock rfl hpb
  have hwire := ofWire_encodeBlock (Encoding.writes_target ho _ Encoding.tlv.listParam o.originName) (by decide) hpb
  obtain ⟨d, hd, hsame⟩ := decodeParam_of_carries Encoding.ListParam.roundTrips trivial hpb hwire hc
  obtain ⟨r, hr, hprocess⟩ := process_lists h ho
  refine ⟨r, hr, answeredWith (answerQuery_of_decoded hc.length hd ?_) (by cases hr <;> trivial)⟩
  rw [process_same hsame]
  exact hprocess

/-! ## Runs -/

/-- A key that the command updates is one that the library accepts, as that of a certificate is. -/
def Command.HoldsKey : Command → Prop
  | .update ⟨.publicKey _ key, _⟩ => (toPublicKey key).isSome = true
  | _ => True

omit [Encoding.Formats] in
theorem Command.HoldsKey.newKey {command : Command} {key : PublicKey} (h : command.HoldsKey)
    (hkey : command.newKey = some key) : (toPublicKey key).isSome = true := by
  obtain ⟨⟨entity, defaultOpt⟩⟩ | param := command
  · cases entity with
    | publicKey keyName newKey => cases hkey; exact h
    | certificate certificate => cases hkey; exact certificate.accepted
    | user mgmtCert => cases hkey
    | identity identity => cases hkey
  · cases hkey

omit [Encoding.Formats] in
theorem Contents.HoldsKeys.apply {c : Contents} (h : c.HoldsKeys) {command : Command} (hkey : command.HoldsKey) :
    (c.apply command).HoldsKeys :=
  fun n k hk => (keys_apply hk).elim (h n k) hkey.newKey

omit [Encoding.Formats] in
theorem Contents.HoldsKeys.foldl {commands : List Command} {c : Contents} (h : c.HoldsKeys)
    (hkeys : ∀ command ∈ commands, command.HoldsKey) : (commands.foldl Contents.apply c).HoldsKeys := by
  induction commands generalizing c with
  | nil => exact h
  | cons command commands ih =>
    obtain ⟨hkey, hkeys⟩ := List.forall_mem_cons.1 hkeys
    exact ih (h.apply hkey) hkeys

omit [Encoding.Formats] in
theorem holdsKey_acceptedCommands {es : List (Command × Name)} (hes : ∀ e ∈ es, e.1.HoldsKey) :
    ∀ command ∈ acceptedCommands db es, command.HoldsKey := by
  intro command hc
  obtain ⟨db', e, he, hobs⟩ := Machine.of_mem_log hc
  split at hobs
  · rw [List.mem_singleton.1 hobs]
    exact hes e he
  · cases hobs

/-- After any run of the service, a client of get reads in the answer what the accepted commands have made of the
contents under the name it asks for, or an error. -/
theorem get_exec (h : db.Integrity) (hkeys : (db.contents h).HoldsKeys) {es : List (Command × Name)}
    (hr : pibService.Runs db es) (hes : ∀ e ∈ es, e.1.HoldsKey) {o : GetParam} (hu : o.targetType ≠ typeUser)
    (hpb : encodeBlock o = .ok pb) (hc : Carries interestName pb) :
    ∃ r, ((acceptedCommands db es).foldl Contents.apply (db.contents h)).Replies o r ∧
      AnsweredWith (GetQueryProcessor.operator library (pibService.exec db es) tpmLocator interestName) r := by
  obtain ⟨h', hcontents⟩ := contents_exec h es hr
  have hkeys' : ((pibService.exec db es).contents h').HoldsKeys := by
    rw [hcontents]
    exact hkeys.foldl (holdsKey_acceptedCommands hes)
  rw [← hcontents]
  exact GetQueryProcessor.operator_replies h' hkeys' hu hpb hc

/-- After any run of the service, a client of list reads in the answer the names that the accepted commands have
left under the origin, each once. -/
theorem list_exec (h : db.Integrity) {es : List (Command × Name)} (hr : pibService.Runs db es) {o : ListParam}
    (hpb : encodeBlock o = .ok pb) (hc : Carries interestName pb) :
    ∃ r, ((acceptedCommands db es).foldl Contents.apply (db.contents h)).Lists o r ∧
      AnsweredWith (ListQueryProcessor.operator library (pibService.exec db es) interestName) r := by
  obtain ⟨h', hcontents⟩ := contents_exec h es hr
  rw [← hcontents]
  exact ListQueryProcessor.operator_lists h' hpb hc

end

end NdnTools.Pib
