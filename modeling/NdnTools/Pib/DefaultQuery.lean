/-
The query for a default (`default-query-processor.cpp`), and when its answer is the right one. The
processor expects an exception of the database where there is no default, but the database gives a
reserved name, and the query goes on with that.
-/
import NdnTools.Pib.Encoding.Params
import NdnTools.Pib.Commands
import NdnTools.Pib.Integrity

namespace NdnTools.Pib

open Tlv
open Encoding (DefaultParam typeUser typeId typeKey typeCert)

section
variable [Certificates]

namespace DefaultQueryProcessor

inductive ErrCode
  | wrongParam
  | noDefaultId
  | noDefaultKey
  | noDefaultCert
  deriving Repr, DecidableEq

structure PibError where
  code : ErrCode
  message : String
  deriving Repr, DecidableEq

inductive Entity
  | identity (identity : Name)
  | publicKey (keyName : Name) (key : PublicKey)
  | certificate (certificate : IdentityCertificate)
  deriving DecidableEq

/-- The entity, or an error, that a query is answered with. -/
abbrev Answer := Except PibError Entity

/-! ## The queries -/

/-- A block of which a `PibDb::Error` is caught. The calls made in these blocks throw none. -/
def tryDb {α : Type} (caught : String → PibError) (block : Except String α) : Except PibError α :=
  block.mapError caught

def getDefaultIdentity (db : Db) : Except PibError Name :=
  tryDb (fun _ => ⟨.noDefaultId, "default identity does not exist"⟩) (.ok db.getDefaultIdentity)

def processDefaultIdQuery (db : Db) (param : DefaultParam) : Answer :=
  if param.originType = typeUser then
    match getDefaultIdentity db with
    | .error e => .error e
    | .ok identity => .ok (.identity identity)
  else
    .error ⟨.wrongParam, "origin type of id target must be USER(0), but gets: " ++ toString param.originType⟩

/-- The default key of an identity, which is read by its name. -/
def readDefaultKey (db : Db) (identity : Name) : Answer :=
  match tryDb (fun what => ⟨.noDefaultKey, "default key does not exist: " ++ what⟩)
      (.ok (db.getDefaultKeyNameOfIdentity identity, db.getKey (db.getDefaultKeyNameOfIdentity identity))) with
  | .error e => .error e
  | .ok (_, none) => .error ⟨.noDefaultKey, "default key does not exist"⟩
  | .ok (keyName, some key) => .ok (.publicKey keyName key)

def processDefaultKeyQuery (db : Db) (param : DefaultParam) : Answer :=
  if param.originType = typeId then readDefaultKey db param.originName
  else if param.originType = typeUser then
    match getDefaultIdentity db with
    | .error e => .error e
    | .ok identity => readDefaultKey db identity
  else
    .error ⟨.wrongParam, "origin type of key target must be ID(1) or USER(0), but gets: " ++ toString param.originType⟩

/-- The default certificate of a key, which is read by its name. -/
def readDefaultCert (db : Db) (keyName : Name) : Answer :=
  match tryDb (fun _ => ⟨.noDefaultCert, "default cert does not exist"⟩)
      (.ok (db.getCertificate (db.getDefaultCertNameOfKey keyName))) with
  | .error e => .error e
  | .ok none => .error ⟨.noDefaultCert, "default cert does not exist"⟩
  | .ok (some certificate) => .ok (.certificate certificate)

/-- The default certificate of the default key of an identity. -/
def readCertOfIdentity (db : Db) (identity : Name) : Answer :=
  match tryDb (fun _ => ⟨.noDefaultKey, "default key does not exist"⟩)
      (.ok (db.getDefaultKeyNameOfIdentity identity)) with
  | .error e => .error e
  | .ok keyName => readDefaultCert db keyName

def processDefaultCertQuery (db : Db) (param : DefaultParam) : Answer :=
  if param.originType = typeUser then
    match getDefaultIdentity db with
    | .error e => .error e
    | .ok identity => readCertOfIdentity db identity
  else if param.originType = typeId then readCertOfIdentity db param.originName
  else if param.originType ≠ typeKey then
    .error ⟨.wrongParam,
      "origin type of cert target must be KEY(2), ID(1) or USER(0), but gets: " ++ toString param.originType⟩
  else if param.originName.length < 1 then .error ⟨.wrongParam, "key name must contain key id component"⟩
  else readDefaultCert db param.originName

def processQuery (db : Db) (param : DefaultParam) : Answer :=
  if param.targetType = typeId then processDefaultIdQuery db param
  else if param.targetType = typeKey then processDefaultKeyQuery db param
  else if param.targetType = typeCert then processDefaultCertQuery db param
  else .error ⟨.wrongParam, "target type is not supported: " ++ toString param.targetType⟩

def defaultQueryLength : ℕ := 5

def offsetParam : ℕ := 4

/-- The parameter in a component of a name; the text of an exception of the library is not known. -/
def decodeParam [Encoding.Formats] (component : Component) : Except Error DefaultParam := do
  DefaultParam.wireDecode {} (← orThrow (Block.ofWire component))

/-- `operator()`: an Interest of another length is not answered. -/
def process [Encoding.Formats] (libraryWhat : String) (db : Db) (interestName : Name) : Option Answer :=
  if interestName.length ≠ defaultQueryLength then none
  else
    match decodeParam (interestName.getD offsetParam []) with
    | .error .library => some (.error ⟨.wrongParam, "error in parsing param: " ++ libraryWhat⟩)
    | .error (.thrown what) => some (.error ⟨.wrongParam, "error in parsing param: " ++ what⟩)
    | .ok param => some (processQuery db param)

/-! ## The chain of defaults -/

/-- The user's default identity. -/
def defaultIdentity? (db : Db) : Option Name := (db.identities.find? fun i => i.isDefault).map fun i => i.name

/-- The default key of an identity. -/
def defaultKey? (db : Db) (identity : Name) : Option (Name × PublicKey) :=
  (db.keys.find? fun k => k.isDefault ∧ ∃ i ∈ db.identities, i.id = k.scope ∧ i.name = identity).map fun k =>
    (k.name, k.data)

/-- The default certificate of a key. -/
def defaultCert? (db : Db) (keyName : Name) : Option IdentityCertificate :=
  (db.certificates.find? fun c => c.isDefault ∧ ∃ k ∈ db.keys, k.id = c.scope ∧ k.name = keyName).map fun c => c.data

/-- The link of a chain, or the code that says it is missing. -/
def link {α : Type} (code : ErrCode) : Option α → Except ErrCode α
  | none => .error code
  | some a => .ok a

/-- The identity that a chain starts at or comes to first. -/
def chainIdentity (db : Db) (param : DefaultParam) : Except ErrCode Name :=
  if param.originType = typeUser then link .noDefaultId (defaultIdentity? db) else .ok param.originName

def chainKey (db : Db) (param : DefaultParam) : Except ErrCode (Name × PublicKey) := do
  link .noDefaultKey (defaultKey? db (← chainIdentity db param))

def chainKeyName (db : Db) (param : DefaultParam) : Except ErrCode Name :=
  if param.originType = typeKey then .ok param.originName else Prod.fst <$> chainKey db param

/-- The entity at the end of the chain from the origin to the target, or the first missing link. -/
def chain (db : Db) (param : DefaultParam) : Except ErrCode Entity :=
  if param.targetType = typeId then Entity.identity <$> chainIdentity db param
  else if param.targetType = typeKey then (fun k => Entity.publicKey k.1 k.2) <$> chainKey db param
  else do
    return Entity.certificate (← link .noDefaultCert (defaultCert? db (← chainKeyName db param)))

/-- The targets and origins that there are queries for. -/
def Supported (param : DefaultParam) : Prop :=
  (param.targetType = typeId ∧ param.originType = typeUser) ∨
  (param.targetType = typeKey ∧ (param.originType = typeId ∨ param.originType = typeUser)) ∨
  (param.targetType = typeCert ∧
    (param.originType = typeKey ∨ param.originType = typeId ∨ param.originType = typeUser))

instance (param : DefaultParam) : Decidable (Supported param) := inferInstanceAs (Decidable (_ ∨ _))

def reservedNames : List Name := [Db.nonExistingIdentity, Db.nonExistingKey, Db.nonExistingCertificate]

def Entity.name : Entity → Name
  | .identity n => n
  | .publicKey n _ => n
  | .certificate cert => cert.name

/-- An answer is the end of the chain, or names the first missing link, and has no reserved name. -/
structure Fits (answer : Answer) (expected : Except ErrCode Entity) : Prop where
  links : answer.mapError PibError.code = expected
  unreserved : ∀ entity, answer = .ok entity → entity.name ∉ reservedNames

def Faithful (db : Db) (param : DefaultParam) : Prop := Fits (processQuery db param) (chain db param)

/-! ## When the answer fits -/

@[simp] theorem fits_ok {entity expected : Entity} :
    Fits (.ok entity) (.ok expected) ↔ entity = expected ∧ entity.name ∉ reservedNames := by
  constructor
  · rintro ⟨hlinks, hunreserved⟩
    exact ⟨Except.ok.inj hlinks, hunreserved entity rfl⟩
  · rintro ⟨rfl, hunreserved⟩
    exact ⟨rfl, fun e he => by cases he; exact hunreserved⟩

@[simp] theorem fits_error {e : PibError} {code : ErrCode} : Fits (.error e) (.error code) ↔ e.code = code := by
  constructor
  · rintro ⟨hlinks, -⟩
    exact Except.error.inj hlinks
  · rintro rfl
    exact ⟨rfl, fun e he => by cases he⟩

@[simp] theorem not_fits_ok_error {entity : Entity} {code : ErrCode} : ¬ Fits (.ok entity) (.error code) := by
  rintro ⟨hlinks, -⟩
  cases hlinks

@[simp] theorem not_fits_error_ok {e : PibError} {expected : Entity} : ¬ Fits (.error e) (.ok expected) := by
  rintro ⟨hlinks, -⟩
  cases hlinks

/-! ## What the database gives -/

variable {db : Db} {param : DefaultParam} {identity keyName : Name} {key : PublicKey}

/-- The default identity, or the reserved name. -/
theorem getDefaultIdentity_eq_getD (db : Db) :
    db.getDefaultIdentity = (defaultIdentity? db).getD Db.nonExistingIdentity := by
  unfold Db.getDefaultIdentity defaultIdentity?
  split
  · rename_i hnone
    rw [hnone]
    rfl
  · rename_i i hsome
    rw [hsome]
    rfl

theorem getDefaultKeyName_of_defaultKey (h : defaultKey? db identity = some (keyName, key)) :
    db.getDefaultKeyNameOfIdentity identity = keyName := by
  unfold defaultKey? at h
  obtain ⟨k, hfind, hk⟩ := Option.map_eq_some_iff.1 h
  cases hk
  unfold Db.getDefaultKeyNameOfIdentity
  rw [hfind]

theorem getDefaultKeyName_of_noDefaultKey (h : defaultKey? db identity = none) :
    db.getDefaultKeyNameOfIdentity identity = Db.nonExistingKey := by
  unfold Db.getDefaultKeyNameOfIdentity
  rw [Option.map_eq_none_iff.1 h]

/-- The default key is stored under its name, which is not empty. -/
theorem mem_of_defaultKey (hdb : db.Integrity) (h : defaultKey? db identity = some (keyName, key)) :
    db.getKey keyName = some key ∧ keyName ≠ [] := by
  obtain ⟨k, hfind, hk⟩ := Option.map_eq_some_iff.1 h
  cases hk
  have hmem := List.mem_of_find?_eq_some hfind
  refine ⟨?_, (hdb.keyOf k hmem).1⟩
  unfold Db.getKey
  rw [hdb.keys.row_of_mem hmem]
  rfl

theorem name_notMem_reservedNames (certificate : IdentityCertificate) : certificate.name ∉ reservedNames := by
  intro hmem
  obtain ⟨before, after, version, hname, -⟩ := (Certificates.spec _ _).1 certificate.named
  have hlabel : ∀ n ∈ reservedNames, idCertLabel ∉ n := by decide
  refine hlabel _ hmem ?_
  rw [hname]
  simp

/-- There is no certificate with the reserved name. -/
theorem getCertificate_default (hdb : db.Integrity) (keyName : Name) :
    db.getCertificate (db.getDefaultCertNameOfKey keyName) = defaultCert? db keyName := by
  unfold Db.getDefaultCertNameOfKey defaultCert? Db.getCertificate
  split
  · rename_i hnone
    have hno : ¬ db.certificates.Has Db.nonExistingCertificate := by
      rintro ⟨c, hc, hname⟩
      refine name_notMem_reservedNames c.data ?_
      rw [← (hdb.certOf c hc).1, hname]
      decide
    rw [hnone, DefaultTable.row_eq_none hno]
  · rename_i c hsome
    rw [hsome, hdb.certificates.row_of_mem (List.mem_of_find?_eq_some hsome)]

/-! ## The links -/

theorem fits_readDefaultCert (hdb : db.Integrity) (keyName : Name) :
    Fits (readDefaultCert db keyName) (Entity.certificate <$> link .noDefaultCert (defaultCert? db keyName)) := by
  unfold readDefaultCert
  rw [getCertificate_default hdb]
  cases defaultCert? db keyName with
  | none => exact fits_error.2 rfl
  | some certificate => exact fits_ok.2 ⟨rfl, name_notMem_reservedNames certificate⟩

/-- The default key of the identity has no reserved name, or there is none, and no key with the reserved name. -/
def KeyTold (db : Db) (identity : Name) : Prop :=
  (∃ k, defaultKey? db identity = some k ∧ k.1 ∉ reservedNames) ∨
  (defaultKey? db identity = none ∧ db.getKey Db.nonExistingKey = none)

theorem fits_readDefaultKey_iff (hdb : db.Integrity) (identity : Name) :
    Fits (readDefaultKey db identity)
        ((fun k => Entity.publicKey k.1 k.2) <$> link .noDefaultKey (defaultKey? db identity)) ↔
      KeyTold db identity := by
  unfold readDefaultKey KeyTold
  cases hdefault : defaultKey? db identity with
  | none =>
    rw [getDefaultKeyName_of_noDefaultKey hdefault]
    cases hkey : db.getKey Db.nonExistingKey with
    | none => simp [tryDb, link, Except.mapError]
    | some key => simp [tryDb, link, Except.mapError]
  | some k =>
    obtain ⟨keyName, key⟩ := k
    rw [getDefaultKeyName_of_defaultKey hdefault, (mem_of_defaultKey hdb hdefault).1]
    simp [tryDb, link, Except.mapError, Entity.name]

/-! ## When a query is answered faithfully -/

/-- What the links that lead to a target have to be like: the identity that the processor starts from is
there and, for a certificate of an identity, its default key; and a name that is answered is not reserved. -/
def Told (db : Db) (param : DefaultParam) : Prop :=
  if param.targetType = typeId then ∃ i, defaultIdentity? db = some i ∧ i ∉ reservedNames
  else if param.targetType = typeKey then ∃ i, chainIdentity db param = .ok i ∧ KeyTold db i
  else if param.originType = typeKey then param.originName ≠ []
  else ∃ i, chainIdentity db param = .ok i ∧ (defaultKey? db i).isSome

theorem faithful_id_iff (ht : param.targetType = typeId) (ho : param.originType = typeUser) :
    Faithful db param ↔ Told db param := by
  have hanswer : processQuery db param = .ok (.identity db.getDefaultIdentity) := by
    unfold processQuery processDefaultIdQuery
    rw [if_pos ht, if_pos ho]
    rfl
  have hchain : chain db param = Entity.identity <$> link .noDefaultId (defaultIdentity? db) := by
    unfold chain chainIdentity
    rw [if_pos ht, if_pos ho]
  unfold Faithful Told
  rw [hanswer, hchain, if_pos ht, getDefaultIdentity_eq_getD]
  cases defaultIdentity? db with
  | none => simp [link]
  | some i => simp [link, Entity.name]

/-- The identity that the processor starts from. -/
def startIdentity (db : Db) (param : DefaultParam) : Name :=
  if param.originType = typeUser then db.getDefaultIdentity else param.originName

theorem chainIdentity_cases (db : Db) (param : DefaultParam) :
    chainIdentity db param = .ok (startIdentity db param) ∨ chainIdentity db param = .error .noDefaultId := by
  unfold chainIdentity startIdentity
  split
  · rw [getDefaultIdentity_eq_getD]
    cases defaultIdentity? db with
    | none => exact .inr rfl
    | some i => exact .inl rfl
  · exact .inl rfl

theorem processQuery_key (ht : param.targetType = typeKey)
    (ho : param.originType = typeId ∨ param.originType = typeUser) :
    processQuery db param = readDefaultKey db (startIdentity db param) := by
  unfold processQuery processDefaultKeyQuery startIdentity
  rw [ht, if_neg (by decide), if_pos rfl]
  rcases ho with ho | ho
  · rw [ho]
    rfl
  · rw [ho]
    rfl

theorem processQuery_certOfIdentity (ht : param.targetType = typeCert)
    (ho : param.originType = typeId ∨ param.originType = typeUser) :
    processQuery db param = readDefaultCert db (db.getDefaultKeyNameOfIdentity (startIdentity db param)) := by
  unfold processQuery processDefaultCertQuery startIdentity
  rw [ht, if_neg (by decide), if_neg (by decide), if_pos rfl]
  rcases ho with ho | ho
  · rw [ho]
    rfl
  · rw [ho]
    rfl

/-- The answers do not name a link that is missed before the last one. -/
theorem not_fits_readDefaultKey {code : ErrCode} (hcode : code ≠ .noDefaultKey) :
    ¬ Fits (readDefaultKey db identity) (.error code) := by
  unfold readDefaultKey
  cases db.getKey (db.getDefaultKeyNameOfIdentity identity) with
  | none => simpa [tryDb, Except.mapError] using hcode.symm
  | some key => simp [tryDb, Except.mapError]

theorem not_fits_readDefaultCert {code : ErrCode} (hcode : code ≠ .noDefaultCert) :
    ¬ Fits (readDefaultCert db keyName) (.error code) := by
  unfold readDefaultCert
  cases db.getCertificate (db.getDefaultCertNameOfKey keyName) with
  | none => simpa [tryDb, Except.mapError] using hcode.symm
  | some certificate => simp [tryDb, Except.mapError]

theorem faithful_key_iff (hdb : db.Integrity) (ht : param.targetType = typeKey)
    (ho : param.originType = typeId ∨ param.originType = typeUser) : Faithful db param ↔ Told db param := by
  unfold Faithful Told chain chainKey
  rw [processQuery_key ht ho, ht, if_neg (by decide), if_pos rfl, if_neg (by decide), if_pos rfl]
  rcases chainIdentity_cases db param with hstart | hmissing
  · rw [hstart]
    simp only [Except.ok.injEq, exists_eq_left']
    exact fits_readDefaultKey_iff hdb (startIdentity db param)
  · rw [hmissing]
    simp only [reduceCtorEq, false_and, exists_false, iff_false]
    exact not_fits_readDefaultKey (by decide)

theorem faithful_certOfIdentity_iff (hdb : db.Integrity) (ht : param.targetType = typeCert)
    (ho : param.originType = typeId ∨ param.originType = typeUser) : Faithful db param ↔ Told db param := by
  have hkey : param.originType ≠ typeKey := by
    rcases ho with ho | ho <;> rw [ho] <;> decide
  unfold Faithful Told chain chainKeyName chainKey
  rw [processQuery_certOfIdentity ht ho, ht, if_neg (by decide), if_neg (by decide), if_neg hkey, if_neg (by decide),
    if_neg (by decide), if_neg hkey]
  rcases chainIdentity_cases db param with hstart | hmissing
  · rw [hstart]
    simp only [Except.ok.injEq, exists_eq_left']
    cases hdefault : defaultKey? db (startIdentity db param) with
    | none =>
      have hmissing : (Except.ok (startIdentity db param) >>= fun i => link .noDefaultKey (defaultKey? db i)) =
          .error .noDefaultKey := by
        change link .noDefaultKey (defaultKey? db (startIdentity db param)) = _
        rw [hdefault]
        rfl
      rw [hmissing]
      simp only [Option.isSome_none, Bool.false_eq_true, iff_false]
      exact not_fits_readDefaultCert (by decide)
    | some k =>
      obtain ⟨keyName, key⟩ := k
      have hlink : (Except.ok (startIdentity db param) >>= fun i => link .noDefaultKey (defaultKey? db i)) =
          .ok (keyName, key) := by
        change link .noDefaultKey (defaultKey? db (startIdentity db param)) = _
        rw [hdefault]
        rfl
      rw [hlink, getDefaultKeyName_of_defaultKey hdefault]
      simp only [Option.isSome_some, iff_true]
      exact fits_readDefaultCert hdb keyName
  · rw [hmissing]
    simp only [reduceCtorEq, false_and, exists_false, iff_false]
    exact not_fits_readDefaultCert (by decide)

theorem faithful_certOfKey_iff (hdb : db.Integrity) (ht : param.targetType = typeCert)
    (ho : param.originType = typeKey) : Faithful db param ↔ Told db param := by
  have hanswer : processQuery db param =
      if param.originName.length < 1 then .error ⟨.wrongParam, "key name must contain key id component"⟩
      else readDefaultCert db param.originName := by
    unfold processQuery processDefaultCertQuery
    rw [ht, ho]
    rfl
  have hchain : chain db param =
      Entity.certificate <$> link .noDefaultCert (defaultCert? db param.originName) := by
    unfold chain chainKeyName
    rw [ht, ho]
    rfl
  have htold : Told db param ↔ param.originName ≠ [] := by
    unfold Told
    rw [ht, ho, if_neg (by decide), if_neg (by decide), if_pos rfl]
  unfold Faithful
  rw [hanswer, hchain, htold]
  by_cases hnil : param.originName = []
  · rw [if_pos (by simp [hnil])]
    simp only [hnil, ne_eq, not_true, iff_false]
    cases defaultCert? db [] with
    | none => simp [link]
    | some certificate => simp [link]
  · rw [if_neg (by simpa [Nat.lt_one_iff] using hnil)]
    exact iff_of_true (fits_readDefaultCert hdb _) hnil

/-- A query for a default is answered with the end of its chain, or its first missing link, exactly if
the links before the last are there and no name that is answered is reserved. -/
theorem faithful_iff (hdb : db.Integrity) (hs : Supported param) : Faithful db param ↔ Told db param := by
  rcases hs with ⟨ht, ho⟩ | ⟨ht, ho⟩ | ⟨ht, ho | ho⟩
  · exact faithful_id_iff ht ho
  · exact faithful_key_iff hdb ht ho
  · exact faithful_certOfKey_iff hdb ht ho
  · exact faithful_certOfIdentity_iff hdb ht ho

end DefaultQueryProcessor

end

/-! ## A query on a new database -/

section
open DefaultQueryProcessor

local instance queriedNames : Certificates := .documented

def defaultIdentityOfUser : DefaultParam := { targetType := typeId, originType := typeUser }

theorem faithful_iff_added :
    Faithful (Db.empty.addIdentity ["a"]) defaultIdentityOfUser ↔ Told (Db.empty.addIdentity ["a"]) defaultIdentityOfUser :=
  faithful_iff (Db.integrity_addIdentity Db.integrity_empty ["a"]) (by decide)

/-- The default identity of an empty database is answered with the reserved name. -/
theorem reserved_name_answered :
    ¬ ∀ (db : Db) (param : DefaultParam), db.Integrity → Supported param → Faithful db param := by
  intro h
  have hfaithful := h Db.empty defaultIdentityOfUser Db.integrity_empty (by decide)
  exact hfaithful.unreserved (.identity Db.nonExistingIdentity) rfl (by simp [reservedNames, Entity.name])

end

end NdnTools.Pib
