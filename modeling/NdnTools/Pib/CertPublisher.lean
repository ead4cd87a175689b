/-
`CertPublisher` (`cert-publisher.cpp`): serves the certificates of the database from a cache and has an
interest filter for each prefix of their names. It follows the rows of the table as they are inserted
and deleted, one after the other also where one operation deletes several.

Of the cache only what it is documented to do is used: `erase` removes every packet under a name, and
`find` gives some packet under a name if there is one.
-/
import NdnTools.Pib.Signals
import Mathlib.Data.List.AList

namespace NdnTools.Pib

/-- A filter that was set, with the certificate name that its callbacks hold. -/
structure InterestFilter where
  id : ℕ
  certName : Name
  deriving Repr, DecidableEq

/-- The prefix the filter was set for. -/
def InterestFilter.registeredPrefix (f : InterestFilter) : Name := getPrefix f.certName

variable [Certificates]

/-- `live` are the filters that were set and neither unset nor failed, `pending` those whose registration has
not been answered: a filter may be unset before. -/
structure CertPublisher where
  responseCache : List IdentityCertificate
  registeredPrefixes : AList fun _ : Name => ℕ
  live : List InterestFilter
  pending : List InterestFilter
  nextFilterId : ℕ
  /-- An assertion has failed or a null pointer was dereferenced. -/
  aborted : Bool

namespace CertPublisher

/-- `m_responseCache` before the first certificate. -/
def empty : CertPublisher := ⟨[], ∅, [], [], 0, false⟩

/-- `m_face.setInterestFilter`, with the record of the filter under its prefix. -/
def setInterestFilter (certName : Name) (p : CertPublisher) : CertPublisher :=
  { p with
    registeredPrefixes := p.registeredPrefixes.insert (getPrefix certName) p.nextFilterId
    live := ⟨p.nextFilterId, certName⟩ :: p.live
    pending := ⟨p.nextFilterId, certName⟩ :: p.pending
    nextFilterId := p.nextFilterId + 1 }

def registerCertPrefix (certName : Name) (p : CertPublisher) : CertPublisher :=
  if certName = [] then { p with aborted := true }
  else
    match p.registeredPrefixes.lookup (getPrefix certName) with
    | some _ => p
    | none => p.setInterestFilter certName

/-- `m_db.getCertificate` reads the table at that moment. -/
def startPublish (certificates : List IdentityCertificate) (p : CertPublisher) (certName : Name) : CertPublisher :=
  match certificates.find? fun c => c.name = certName with
  | none => { p with aborted := true }
  | some cert =>
    registerCertPrefix certName { p with responseCache := p.responseCache.insert cert }

def stopPublish (certName : Name) (p : CertPublisher) : CertPublisher :=
  if certName = [] then { p with aborted := true }
  else
    let cache := p.responseCache.filter fun c => ¬ certName <+: c.name
    if ∃ c ∈ cache, getPrefix certName <+: c.name then { p with responseCache := cache }
    else
      match p.registeredPrefixes.lookup (getPrefix certName) with
      | none => { p with responseCache := cache, aborted := true }
      | some id =>
        { p with
          responseCache := cache
          registeredPrefixes := p.registeredPrefixes.erase (getPrefix certName)
          live := p.live.filter fun f => f.id ≠ id }

/-- The callback of a registration that failed. -/
def registrationFailed (f : InterestFilter) (p : CertPublisher) : CertPublisher :=
  let p := { p with live := p.live.filter (· ≠ f), pending := p.pending.filter (· ≠ f) }
  match p.registeredPrefixes.lookup f.registeredPrefix with
  | none => p
  | some _ =>
    registerCertPrefix f.certName { p with registeredPrefixes := p.registeredPrefixes.erase f.registeredPrefix }

end CertPublisher

/-! ## The constructor -/

namespace Db

def listIdentities (db : Db) : List Name := db.identities.map fun i => i.name

def listKeyNamesOfIdentity (identity : Name) (db : Db) : List Name :=
  (db.keys.filter fun k => ∃ i ∈ db.identities, i.id = k.scope ∧ i.name = identity).map fun k => k.name

def listCertNamesOfKey (keyName : Name) (db : Db) : List Name :=
  (db.certificates.filter fun c => ∃ k ∈ db.keys, k.id = c.scope ∧ k.name = keyName).map fun c => c.name

/-- The certificates of the table. -/
def certificateData (db : Db) : List IdentityCertificate := db.certificates.map fun c => c.data

end Db

namespace CertPublisher

/-- The certificate names in the order in which `startPublishAll` goes through them. -/
def allCertNames (db : Db) : List Name :=
  db.listIdentities.flatMap fun identity =>
    (db.listKeyNamesOfIdentity identity).flatMap fun keyName => db.listCertNamesOfKey keyName

/-- `startPublishAll`, by a publisher as it is constructed. -/
def init (db : Db) : CertPublisher := (allCertNames db).foldl (startPublish db.certificateData) empty

end CertPublisher

/-! ## The publisher on its table -/

/-- The certificates in the table, and their publisher. -/
structure PublishedTable where
  certificates : List IdentityCertificate
  publisher : CertPublisher

def PublishedTable.init (db : Db) : PublishedTable := ⟨db.certificateData, .init db⟩

inductive PublisherEvent
  | inserted (certificate : IdentityCertificate)
  | deleted (certificateName : Name)
  | registered (f : InterestFilter)
  | failed (f : InterestFilter)

namespace PublishedTable

/-- A new row has a new name, a deleted row was there, and a registration is answered once. -/
def enabled (s : PublishedTable) : PublisherEvent → Prop
  | .inserted certificate => ∀ c ∈ s.certificates, c.name ≠ certificate.name
  | .deleted certificateName => ∃ c ∈ s.certificates, c.name = certificateName
  | .registered f => f ∈ s.publisher.pending
  | .failed f => f ∈ s.publisher.pending

instance (s : PublishedTable) : (e : PublisherEvent) → Decidable (s.enabled e)
  | .inserted certificate => inferInstanceAs (Decidable (∀ c ∈ s.certificates, c.name ≠ certificate.name))
  | .deleted certificateName => inferInstanceAs (Decidable (∃ c ∈ s.certificates, c.name = certificateName))
  | .registered f => inferInstanceAs (Decidable (f ∈ s.publisher.pending))
  | .failed f => inferInstanceAs (Decidable (f ∈ s.publisher.pending))

/-- The row is written first, and then reported. -/
def step (s : PublishedTable) : PublisherEvent → PublishedTable
  | .inserted certificate =>
    ⟨s.certificates ++ [certificate], s.publisher.startPublish (s.certificates ++ [certificate]) certificate.name⟩
  | .deleted certificateName =>
    ⟨s.certificates.filter fun c => c.name ≠ certificateName, s.publisher.stopPublish certificateName⟩
  | .registered f => { s with publisher := { s.publisher with pending := s.publisher.pending.filter (· ≠ f) } }
  | .failed f => { s with publisher := s.publisher.registrationFailed f }

end PublishedTable

def publisherMachine : Machine PublishedTable PublisherEvent where
  enabled := PublishedTable.enabled
  step := PublishedTable.step

instance (s : PublishedTable) (e : PublisherEvent) : Decidable (publisherMachine.enabled s e) :=
  inferInstanceAs (Decidable (s.enabled e))

/-! ## Operations as events -/

/-- The row that a signal reports, of a database that the signalling operation has led to. -/
def Signal.rowEvent (db : Db) : Signal → Option PublisherEvent
  | certificateInserted certificateName =>
    (db.certificates.row certificateName).map fun c => .inserted c.data
  | certificateDeleted certificateName => some (.deleted certificateName)
  | _ => none

/-- The rows that an operation inserts or deletes, in their order. -/
def Operation.rowEvents (db : Db) (o : Operation) : List PublisherEvent :=
  (o.signals db).filterMap (Signal.rowEvent (o.apply db))

inductive PublisherAction
  | operation (o : Operation)
  | registered (f : InterestFilter)
  | failed (f : InterestFilter)

/-- The database after an action. -/
def PublisherAction.apply (db : Db) : PublisherAction → Db
  | operation o => o.apply db
  | _ => db

/-- The events of an action. -/
def PublisherAction.events (db : Db) : PublisherAction → List PublisherEvent
  | operation o => o.rowEvents db
  | registered f => [.registered f]
  | failed f => [.failed f]

/-- The events of actions on a database. -/
def actionEvents : Db → List PublisherAction → List PublisherEvent
  | _, [] => []
  | db, a :: as => a.events db ++ actionEvents (a.apply db) as

end NdnTools.Pib
