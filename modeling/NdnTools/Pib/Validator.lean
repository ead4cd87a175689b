/-
`PibValidator` (`pib-validator.cpp`, `key-cache.cpp`): decides with which key the signature of a command
is verified. It keeps the management certificate and a cache of keys, and follows the database through
its signals. However operations, checks and evictions follow each other, the key is the one that is
stored at the moment.

The cache is an `LruCache`: `adjustLru` is its `use` and `evictKey` its `evict`.
-/
import NdnTools.Lib.LruCache
import NdnTools.Pib.Privilege
import NdnTools.Pib.Signals

namespace NdnTools.Pib

/-! ## Signed Interests -/

inductive KeyLocator
  | name (name : Name)
  | other
  deriving Repr, DecidableEq

structure Signature where
  keyLocator : Option KeyLocator
  value : Bytes
  deriving Repr, DecidableEq

/-- The exceptions that decoding a signature may end in. -/
inductive SignatureError
  | keyLocator
  | signature
  | identityCertificate
  | tlv
  deriving Repr, DecidableEq

/-- What the handlers make of them. -/
def SignatureError.reason : SignatureError → String
  | keyLocator => "No valid KeyLocator"
  | signature => "No valid signature"
  | identityCertificate => "Cannot determine the signing key"
  | tlv => "Cannot decode signature"

/-- The library as far as it deals with signed Interests. -/
class SignedInterests where
  nameToUri : Name → String
  componentToUri : Component → String
  decodeSignature : Component → Component → Except SignatureError Signature
  verifySignature : Name → Signature → PublicKey → Bool

export SignedInterests (nameToUri componentToUri decodeSignature verifySignature)

def offsetUser : ℕ := 2

def offsetSigInfo : ℕ := 7

def offsetSigValue : ℕ := 8

def signedPibInterestSize : ℕ := 9

/-- How a check ends: with the reason of a failure, or with the answer of `verifySignature` for a key. -/
inductive Outcome
  | failed (reason : String)
  | verified (key : PublicKey) (valid : Bool)
  | nullPointer
  deriving Repr, DecidableEq

variable [Certificates]

structure PibValidator where
  isMgmtReady : Bool
  owner : Option Component
  mgmtCert : Option IdentityCertificate
  keyCache : LruCache Name PublicKey

namespace PibValidator

/-- `KeyCache::getDefaultCapacity` -/
def cacheCapacity : ℕ := 100

/-- The handler of `mgmtCertificateChanged`. -/
def mgmtCertificateChanged (db : Db) (v : PibValidator) : PibValidator where
  isMgmtReady := v.isMgmtReady || (db.getOwnerName.isSome && db.getMgmtCertificate.isSome)
  owner := db.getOwnerName
  mgmtCert := db.getMgmtCertificate
  keyCache := v.keyCache

/-- A validator as it is constructed. -/
def init (db : Db) : PibValidator := mgmtCertificateChanged db ⟨false, none, none, .empty cacheCapacity⟩

/-- The handler of `keyDeleted`; the validator is not connected to the other signals. -/
def onSignal (v : PibValidator) : Signal → PibValidator
  | .keyDeleted keyName => { v with keyCache := v.keyCache.erase keyName }
  | _ => v

/-- The key of a name, from the cache or else from the database. -/
def findKey (db : Db) (keyName : Name) (v : PibValidator) : PibValidator × Option PublicKey :=
  match v.keyCache.find keyName with
  | (cache, some key) => ({ v with keyCache := cache }, some key)
  | (cache, none) =>
    match db.getKey keyName with
    | none => ({ v with keyCache := cache }, none)
    | some key => ({ v with keyCache := cache.insert keyName key }, some key)

variable [SignedInterests]

def checkPolicy (db : Db) (interest : Name) (v : PibValidator) : PibValidator × Outcome :=
  if ¬ v.isMgmtReady then (v, .failed "PibDb is not initialized")
  else if interest.length ≠ signedPibInterestSize then
    (v, .failed ("Interest is not signed: " ++ nameToUri interest))
  else if some (interest.getD offsetUser []) ≠ v.owner then
    (v, .failed ("Wrong user: " ++ componentToUri (interest.getD offsetUser [])))
  else
    match decodeSignature (interest.getD offsetSigInfo []) (interest.getD offsetSigValue []) with
    | .error e => (v, .failed e.reason)
    | .ok signature =>
      match signature.keyLocator, v.mgmtCert with
      | none, _ => (v, .failed "No valid KeyLocator")
      | some .other, _ => (v, .failed "Key Locator is not a name")
      | some (.name _), none => (v, .nullPointer)
      | some (.name locator), some mgmtCert =>
        -- the signing key is the management key
        if locator = getPrefix mgmtCert.name then
          (v, .verified mgmtCert.publicKeyInfo (verifySignature interest signature mgmtCert.publicKeyInfo))
        else
          match certificateNameToPublicKeyName locator with
          | .error _ => (v, .failed SignatureError.identityCertificate.reason)
          | .ok keyName =>
            match findKey db keyName v with
            | (v, none) => (v, .failed "Public key is not trusted")
            | (v, some key) => (v, .verified key (verifySignature interest signature key))

end PibValidator

/-! ## The validator on its database -/

structure ValidatedDb where
  db : Db
  validator : PibValidator

def ValidatedDb.init (db : Db) : ValidatedDb := ⟨db, .init db⟩

inductive ValidatorEvent
  | operation (o : Operation)
  | updateMgmtCertificate (certificate : IdentityCertificate)
  | checkPolicy (interest : Name)
  | evict (keyName : Name)

/-- The signals of an operation are handled while it is carried out; an update of the management certificate
that throws changes nothing. -/
def ValidatedDb.step [SignedInterests] (s : ValidatedDb) : ValidatorEvent → ValidatedDb
  | .operation o => ⟨o.apply s.db, (o.signals s.db).foldl PibValidator.onSignal s.validator⟩
  | .updateMgmtCertificate certificate =>
    match s.db.updateMgmtCertificate certificate with
    | .error _ => s
    | .ok db => ⟨db, s.validator.mgmtCertificateChanged db⟩
  | .checkPolicy interest => { s with validator := (s.validator.checkPolicy s.db interest).1 }
  | .evict keyName => { s with validator := { s.validator with keyCache := s.validator.keyCache.erase keyName } }

def validatorMachine [SignedInterests] : Machine ValidatedDb ValidatorEvent where
  enabled _ _ := True
  step := ValidatedDb.step

/-! ## What the validator holds -/

/-- The cache holds the keys of the database, and the management certificate is the stored one. -/
structure Coherent (s : ValidatedDb) : Prop where
  integrity : s.db.Integrity
  cache : s.validator.keyCache.Reflects fun n => s.db.getKey n
  mgmtCert : s.validator.mgmtCert = s.db.getMgmtCertificate
  ready : s.validator.isMgmtReady = true → s.db.getMgmtCertificate.isSome = true

variable {db db' : Db} {v : PibValidator} {s : ValidatedDb} {keyName locator interest : Name} {key : PublicKey}

theorem coherent_init (h : db.Integrity) : Coherent (.init db) where
  integrity := h
  cache := LruCache.reflects_empty _
  mgmtCert := rfl
  ready hr := by
    have hr : (false || (db.getOwnerName.isSome && db.getMgmtCertificate.isSome)) = true := hr
    simp only [Bool.false_or, Bool.and_eq_true] at hr
    exact hr.2

/-- The keys whose deletion is reported are erased, and that is all. -/
theorem foldl_onSignal (ss : List Signal) (v : PibValidator) :
    ss.foldl PibValidator.onSignal v =
      { v with keyCache := (ss.filterMap Signal.deletedKey).foldl (fun c n => c.erase n) v.keyCache } := by
  induction ss generalizing v with
  | nil => rfl
  | cons signal ss ih =>
    rw [List.foldl_cons, ih]
    cases signal <;> rfl

theorem coherent_operation (h : Coherent s) (o : Operation) :
    Coherent ⟨o.apply s.db, (o.signals s.db).foldl PibValidator.onSignal s.validator⟩ := by
  have hmgmt : (o.apply s.db).getMgmtCertificate = s.db.getMgmtCertificate := by
    unfold Db.getMgmtCertificate
    rw [apply_mgmt]
  rw [foldl_onSignal]
  refine ⟨integrity_apply h.integrity o, ?_, by rw [hmgmt]; exact h.mgmtCert, by rw [hmgmt]; exact h.ready⟩
  refine h.cache.foldl_erase _ fun n key hkey hno => getKey_apply h.integrity hkey fun hmem => hno ?_
  exact List.mem_filterMap.2 ⟨.keyDeleted n, hmem, rfl⟩

theorem coherent_mgmtCertificateChanged (h : Coherent s) {cert : IdentityCertificate}
    (hok : s.db.updateMgmtCertificate cert = .ok db') : Coherent ⟨db', s.validator.mgmtCertificateChanged db'⟩ := by
  obtain ⟨m, rfl⟩ := Db.updateMgmtCertificate_eq hok
  exact ⟨Db.integrity_withMgmt h.integrity _, h.cache, rfl, fun _ => rfl⟩

/-! ## A check -/

/-- The key is found as it is stored, and what is cached stays so. -/
theorem findKey_spec (keyName : Name) (h : v.keyCache.Reflects fun n => db.getKey n) :
    (v.findKey db keyName).2 = db.getKey keyName ∧
      ∃ cache, cache.Reflects (fun n => db.getKey n) ∧ (v.findKey db keyName).1 = { v with keyCache := cache } := by
  have hfind := h.find keyName
  unfold PibValidator.findKey
  split
  · rename_i cache key hc
    have hhit : db.getKey keyName = some key := h.eq_of_find (by rw [hc])
    rw [hc] at hfind
    exact ⟨hhit.symm, cache, hfind, rfl⟩
  · rename_i cache hc
    rw [hc] at hfind
    split
    · rename_i hnone
      exact ⟨hnone.symm, cache, hfind, rfl⟩
    · rename_i key hsome
      exact ⟨hsome.symm, cache.insert keyName key, hfind.insert hsome, rfl⟩

/-- The key that a command with this name in its key locator has to be signed with: the key of the management
certificate or else the key that is stored under the name. -/
def CurrentKey (db : Db) (locator : Name) (key : PublicKey) : Prop :=
  (∃ mgmt, db.getMgmtCertificate = some mgmt ∧ locator = getPrefix mgmt.name ∧ key = mgmt.publicKeyInfo) ∨
    (NotMgmt db locator ∧ ∃ keyName, certificateNameToPublicKeyName locator = .ok keyName ∧
      db.getKey keyName = some key)

variable [SignedInterests]

/-- The name in the key locator of a signed Interest. -/
def SignedBy (interest locator : Name) : Prop :=
  ∃ signature, decodeSignature (interest.getD offsetSigInfo []) (interest.getD offsetSigValue []) = .ok signature ∧
    signature.keyLocator = some (.name locator)

/-- The outcome of a check: the signature is verified with the current key of its signer, and a signer without
a key is rejected. -/
structure Checked (db : Db) (interest : Name) (outcome : Outcome) : Prop where
  current : ∀ key valid, outcome = .verified key valid → ∃ signature locator,
    decodeSignature (interest.getD offsetSigInfo []) (interest.getD offsetSigValue []) = .ok signature ∧
    signature.keyLocator = some (.name locator) ∧ CurrentKey db locator key ∧
    valid = verifySignature interest signature key
  unknown : ∀ locator, SignedBy interest locator → NotMgmt db locator →
    (∀ keyName, certificateNameToPublicKeyName locator = .ok keyName → db.getKey keyName = none) →
    ∃ reason, outcome = .failed reason

theorem checked_failed (reason : String) : Checked db interest (.failed reason) where
  current _ _ he := by cases he
  unknown _ _ _ _ := ⟨reason, rfl⟩

omit [Certificates] in
theorem signedBy_unique {locator' : Name} (h : SignedBy interest locator) (h' : SignedBy interest locator') :
    locator = locator' := by
  obtain ⟨signature, hd, hl⟩ := h
  obtain ⟨signature', hd', hl'⟩ := h'
  rw [hd] at hd'
  cases hd'
  rw [hl] at hl'
  cases hl'
  rfl

/-- A check with the current key of the signer. -/
theorem checked_verified {signature : Signature}
    (hd : decodeSignature (interest.getD offsetSigInfo []) (interest.getD offsetSigValue []) = .ok signature)
    (hl : signature.keyLocator = some (.name locator)) (hk : CurrentKey db locator key) :
    Checked db interest (.verified key (verifySignature interest signature key)) where
  current _ _ he := by
    cases he
    exact ⟨signature, locator, hd, hl, hk, rfl⟩
  unknown locator' hs' hno hmissing := by
    rw [← signedBy_unique ⟨signature, hd, hl⟩ hs'] at hno hmissing
    rcases hk with ⟨mgmt, hm, hl, -⟩ | ⟨-, keyName, hn, hkey⟩
    · exact absurd hl (hno mgmt hm)
    · rw [hmissing keyName hn] at hkey
      cases hkey

/-- A check keeps the validator coherent and uses the current key. -/
theorem checkPolicy_spec (h : Coherent s) (interest : Name) :
    Coherent { s with validator := (s.validator.checkPolicy s.db interest).1 } ∧
      Checked s.db interest (s.validator.checkPolicy s.db interest).2 := by
  unfold PibValidator.checkPolicy
  split
  · exact ⟨h, checked_failed _⟩
  rename_i hready
  split
  · exact ⟨h, checked_failed _⟩
  split
  · exact ⟨h, checked_failed _⟩
  split
  · exact ⟨h, checked_failed _⟩
  rename_i signature hdecode
  split
  · exact ⟨h, checked_failed _⟩
  · exact ⟨h, checked_failed _⟩
  · -- a validator that is ready has a management certificate
    rename_i hnone
    have hsome := h.ready (not_not.1 hready)
    rw [← h.mgmtCert, hnone] at hsome
    cases hsome
  · rename_i locator mgmtCert hlocator hsome
    have hmgmt : s.db.getMgmtCertificate = some mgmtCert := h.mgmtCert.symm.trans hsome
    split
    · rename_i heq
      exact ⟨h, checked_verified hdecode hlocator (.inl ⟨mgmtCert, hmgmt, heq, rfl⟩)⟩
    · rename_i hne
      split
      · exact ⟨h, checked_failed _⟩
      · rename_i keyName hname
        obtain ⟨hkey, cache, hcache, hv⟩ := findKey_spec keyName h.cache
        have hcoherent : Coherent { s with validator := (s.validator.findKey s.db keyName).1 } := by
          rw [hv]
          exact ⟨h.integrity, hcache, h.mgmtCert, h.ready⟩
        split
        · rename_i v hf
          rw [hf] at hcoherent
          exact ⟨hcoherent, checked_failed _⟩
        · rename_i v key hf
          rw [hf] at hcoherent hkey
          have hcurrent : CurrentKey s.db locator key := by
            refine .inr ⟨fun mgmt hm => ?_, keyName, hname, hkey.symm⟩
            rw [hmgmt] at hm
            cases hm
            exact hne
          exact ⟨hcoherent, checked_verified hdecode hlocator hcurrent⟩

/-! ## Runs -/

theorem coherent_step (h : Coherent s) (e : ValidatorEvent) : Coherent (s.step e) := by
  cases e with
  | operation o => exact coherent_operation h o
  | updateMgmtCertificate cert =>
    cases hok : s.db.updateMgmtCertificate cert with
    | error what =>
      simp only [ValidatedDb.step, hok]
      exact h
    | ok db' =>
      simp only [ValidatedDb.step, hok]
      exact coherent_mgmtCertificateChanged h hok
  | checkPolicy interest => exact (checkPolicy_spec h interest).1
  | evict keyName => exact ⟨h.integrity, h.cache.filter _, h.mgmtCert, h.ready⟩

/-- A validator on a database that any operations have led to, with any management certificate: in every run of
operations, updates of the management certificate, checks and evictions, every check uses the key that is stored
at the moment. -/
theorem checkPolicy_checked (m : Option Mgmt) (os : List Operation) (es : List ValidatorEvent) :
    validatorMachine.Each (fun s e => ∀ interest, e = .checkPolicy interest →
        Checked s.db interest (s.validator.checkPolicy s.db interest).2)
      (.init (pibDb.exec { Db.empty with mgmt := m } os)) es := by
  have hdb : (pibDb.exec { Db.empty with mgmt := m } os).Integrity :=
    Machine.always_last _ _ (always_integrity_apply m os).1
  have hruns : validatorMachine.Runs (.init (pibDb.exec { Db.empty with mgmt := m } os)) es :=
    Machine.runs_of_enabled (fun _ _ => trivial) _ _
  have halways : validatorMachine.Always Coherent (.init (pibDb.exec { Db.empty with mgmt := m } os)) es :=
    Machine.always_of_step (fun _ e h _ => coherent_step h e) (coherent_init hdb) hruns
  exact Machine.each_of_always (fun s _ h _ _ interest _ => (checkPolicy_spec h interest).2) hruns halways

end NdnTools.Pib
