/-
When the publisher mirrors the table of certificates. The cache is asked by prefix, so a deletion also
drops certificates whose names extend the deleted one, and one that is only deeper under the prefix
keeps its filter; and the callback of a failed registration does not see whose record it erases. In
every run the publisher mirrors the table exactly if no step is of these kinds.
-/
import NdnTools.Pib.RowEvents

namespace NdnTools.Pib

section
variable [Certificates]

/-! ## What it is to mirror -/

/-- The publisher mirrors the certificates `S`. -/
structure Mirrors (S : Set IdentityCertificate) (p : CertPublisher) : Prop where
  cached : ∀ c, c ∈ p.responseCache ↔ c ∈ S
  prefixes : ∀ n, n ∈ p.registeredPrefixes ↔ ∃ c ∈ S, getPrefix c.name = n
  recorded : ∀ f ∈ p.live, p.registeredPrefixes.lookup f.registeredPrefix = some f.id
  single : ∀ f ∈ p.live, ∀ g ∈ p.live, f.registeredPrefix = g.registeredPrefix → f = g
  running : p.aborted = false

/-- What the Face keeps: the filters that it may still call back. -/
structure Filters (p : CertPublisher) : Prop where
  recorded : ∀ f ∈ p.live, p.registeredPrefixes.lookup f.registeredPrefix = some f.id
  live : ∀ n id, p.registeredPrefixes.lookup n = some id → ∃ f ∈ p.live, f.id = id ∧ f.registeredPrefix = n
  named : ∀ f ∈ p.live ++ p.pending, f.certName ≠ []
  fresh : ∀ f ∈ p.live ++ p.pending, f.id < p.nextFilterId
  unique : ∀ f ∈ p.live ++ p.pending, ∀ g ∈ p.live ++ p.pending, f.id = g.id → f = g

variable {S T : Set IdentityCertificate} {p : CertPublisher} {certName n : Name} {cert : IdentityCertificate}
  {f g : InterestFilter} {certificates : List IdentityCertificate}

theorem Filters.single (h : Filters p) (hf : f ∈ p.live) (hg : g ∈ p.live)
    (he : f.registeredPrefix = g.registeredPrefix) : f = g := by
  have hid := h.recorded f hf
  rw [he, h.recorded g hg] at hid
  exact h.unique f (List.mem_append_left _ hf) g (List.mem_append_left _ hg) (Option.some.inj hid).symm

/-- A publisher that keeps its filters mirrors the certificates it caches and registers. -/
structure Publishes (S : Set IdentityCertificate) (p : CertPublisher) : Prop where
  cached : ∀ c, c ∈ p.responseCache ↔ c ∈ S
  prefixes : ∀ n, n ∈ p.registeredPrefixes ↔ ∃ c ∈ S, getPrefix c.name = n
  filters : Filters p
  running : p.aborted = false

theorem Publishes.mirrors (h : Publishes S p) : Mirrors S p where
  cached := h.cached
  prefixes := h.prefixes
  recorded := h.filters.recorded
  single _ hf _ hg he := h.filters.single hf hg he
  running := h.running

/-! ## Setting and unsetting filters -/

/-- The filters of which the Face keeps something. -/
theorem mem_setInterestFilter :
    f ∈ (p.setInterestFilter certName).live ++ (p.setInterestFilter certName).pending ↔
      f = ⟨p.nextFilterId, certName⟩ ∨ f ∈ p.live ++ p.pending := by
  simp only [CertPublisher.setInterestFilter, List.mem_append, List.mem_cons]
  tauto

theorem filters_setInterestFilter (h : Filters p) (hne : certName ≠ [])
    (hno : getPrefix certName ∉ p.registeredPrefixes) :
    Filters (p.setInterestFilter certName) where
  recorded f hf := by
    have hnone := AList.lookup_eq_none.2 hno
    rcases List.mem_cons.1 hf with rfl | hf
    · exact AList.lookup_insert _
    · have hl := h.recorded f hf
      refine (AList.lookup_insert_ne fun he => ?_).trans hl
      rw [he, hnone] at hl
      cases hl
  live n id hl := by
    by_cases hn : n = getPrefix certName
    · subst hn
      have hid := (AList.lookup_insert _).symm.trans hl
      exact ⟨_, List.mem_cons_self, Option.some.inj hid, rfl⟩
    · obtain ⟨f, hf, hid, hp⟩ := h.live n id ((AList.lookup_insert_ne hn).symm.trans hl)
      exact ⟨f, List.mem_cons_of_mem _ hf, hid, hp⟩
  named f hf := by
    rcases mem_setInterestFilter.1 hf with rfl | hf
    · exact hne
    · exact h.named f hf
  fresh f hf := by
    rcases mem_setInterestFilter.1 hf with rfl | hf
    · exact Nat.lt_succ_self _
    · exact (h.fresh f hf).trans (Nat.lt_succ_self _)
  unique f hf g hg he := by
    -- the new id is above all others
    rcases mem_setInterestFilter.1 hf with rfl | hf <;> rcases mem_setInterestFilter.1 hg with rfl | hg
    · rfl
    · exact absurd (h.fresh g hg) (by rw [← he]; exact lt_irrefl _)
    · exact absurd (h.fresh f hf) (by rw [he]; exact lt_irrefl _)
    · exact h.unique f hf g hg he

/-- Fewer filters of which the Face keeps something. -/
theorem Filters.of_subset (h : Filters p) {q : CertPublisher} (hid : q.nextFilterId = p.nextFilterId)
    (hsub : ∀ f ∈ q.live ++ q.pending, f ∈ p.live ++ p.pending)
    (hrecorded : ∀ f ∈ q.live, q.registeredPrefixes.lookup f.registeredPrefix = some f.id)
    (hlive : ∀ n id, q.registeredPrefixes.lookup n = some id → ∃ f ∈ q.live, f.id = id ∧ f.registeredPrefix = n) :
    Filters q where
  recorded := hrecorded
  live := hlive
  named f hf := h.named f (hsub f hf)
  fresh f hf := by
    rw [hid]
    exact h.fresh f (hsub f hf)
  unique f hf g hg he := h.unique f (hsub f hf) g (hsub g hg) he

/-- The filters do not depend on the cache. -/
theorem Filters.withCache (h : Filters p) (cache : List IdentityCertificate) :
    Filters { p with responseCache := cache } :=
  h.of_subset rfl (fun _ hf => hf) h.recorded h.live

/-- A filter that is unset goes with its record. -/
theorem filters_unset (h : Filters p) {id : ℕ} (hl : p.registeredPrefixes.lookup n = some id)
    (cache : List IdentityCertificate) :
    Filters { p with
      responseCache := cache
      registeredPrefixes := p.registeredPrefixes.erase n
      live := p.live.filter fun f => f.id ≠ id } := by
  have hmem : ∀ {f}, f ∈ p.live.filter (fun f => f.id ≠ id) ↔ f ∈ p.live ∧ f.id ≠ id := fun {f} => by simp
  refine h.of_subset rfl (fun f hf => ?_) (fun f hf => ?_) fun m i hm => ?_
  · rcases List.mem_append.1 hf with hf | hf
    · exact List.mem_append_left _ (hmem.1 hf).1
    · exact List.mem_append_right _ hf
  · obtain ⟨hf, hne⟩ := hmem.1 hf
    have hrec := h.recorded f hf
    refine (AList.lookup_erase_ne fun he => hne ?_).trans hrec
    rw [he, hl] at hrec
    exact (Option.some.inj hrec).symm
  · have hmn : m ≠ n := by
      rintro rfl
      cases (AList.lookup_erase _ _).symm.trans hm
    obtain ⟨f, hf, hid, hp⟩ := h.live m i ((AList.lookup_erase_ne hmn).symm.trans hm)
    refine ⟨f, hmem.2 ⟨hf, fun he => hmn ?_⟩, hid, hp⟩
    -- two prefixes of one id would be prefixes of one filter
    obtain ⟨g, hg, hgid, hgp⟩ := h.live n id hl
    rw [← hp, ← hgp, h.unique f (List.mem_append_left _ hf) g (List.mem_append_left _ hg) (he.trans hgid.symm)]

/-! ## One row or one answer -/

/-- A prefix is registered unless it is. -/
theorem publishes_registerCertPrefix (h : Filters p) (hne : certName ≠ []) (hrun : p.aborted = false)
    (hcached : ∀ c, c ∈ p.responseCache ↔ c ∈ S)
    (hprefixes : ∀ n, n ∈ p.registeredPrefixes ∨ n = getPrefix certName ↔ ∃ c ∈ S, getPrefix c.name = n) :
    Publishes S (p.registerCertPrefix certName) := by
  unfold CertPublisher.registerCertPrefix
  rw [if_neg hne]
  split
  · rename_i id hl
    refine ⟨hcached, fun n => ?_, h, hrun⟩
    rw [← hprefixes]
    constructor
    · exact .inl
    · rintro (hn | rfl)
      · exact hn
      · exact AList.lookup_isSome.1 (by rw [hl]; rfl)
  · rename_i hnone
    refine ⟨hcached, fun n => ?_, filters_setInterestFilter h hne (AList.lookup_eq_none.1 hnone), hrun⟩
    rw [← hprefixes]
    exact (AList.mem_insert _).trans or_comm

/-- A certificate of the table is published. -/
theorem publishes_startPublish (h : Publishes S p)
    (hfind : certificates.find? (fun c => c.name = certName) = some cert) :
    Publishes (insert cert S) (p.startPublish certificates certName) := by
  have hname : cert.name = certName := by simpa using List.find?_some hfind
  subst hname
  unfold CertPublisher.startPublish
  rw [hfind]
  refine publishes_registerCertPrefix (h.filters.withCache (p.responseCache.insert cert)) cert.name_ne_nil h.running
    (fun c => ?_) fun n => ?_
  · simp only [List.mem_insert_iff, Set.mem_insert_iff, h.cached]
  · simp only [h.prefixes, Set.mem_insert_iff]
    constructor
    · rintro (⟨c, hc, hn⟩ | rfl)
      · exact ⟨c, .inr hc, hn⟩
      · exact ⟨cert, .inl rfl, rfl⟩
    · rintro ⟨c, rfl | hc, hn⟩
      · exact .inr hn.symm
      · exact .inl ⟨c, hc, hn⟩

/-- The certificates that are left when the row of the name is deleted. -/
def remaining (certName : Name) (S : Set IdentityCertificate) : Set IdentityCertificate :=
  {c | c ∈ S ∧ c.name ≠ certName}

/-- The deletion touches no other certificate: none is named under the deleted one, and one that is left under its
prefix has this prefix itself, or another does. -/
def DeletesAlone (certName : Name) (S : Set IdentityCertificate) : Prop :=
  (∀ c ∈ remaining certName S, ¬ certName <+: c.name) ∧
    ((∃ c ∈ remaining certName S, getPrefix certName <+: c.name) →
      ∃ c ∈ remaining certName S, getPrefix c.name = getPrefix certName)

/-- The cache without what is named under the certificate. -/
def cacheWithout (certName : Name) (p : CertPublisher) : List IdentityCertificate :=
  p.responseCache.filter fun c => ¬ certName <+: c.name

theorem mem_cacheWithout (h : Publishes S p) {c : IdentityCertificate} :
    c ∈ cacheWithout certName p ↔ c ∈ S ∧ ¬ certName <+: c.name := by
  simp [cacheWithout, h.cached]

/-- The cache finds something under the prefix, or the filter is unset. -/
theorem stopPublish_cases (h : Publishes S p) (hc : cert ∈ S) :
    ((∃ c ∈ cacheWithout cert.name p, getPrefix cert.name <+: c.name) ∧
      p.stopPublish cert.name = { p with responseCache := cacheWithout cert.name p }) ∨
    ((¬ ∃ c ∈ cacheWithout cert.name p, getPrefix cert.name <+: c.name) ∧
      ∃ id, p.registeredPrefixes.lookup (getPrefix cert.name) = some id ∧ p.stopPublish cert.name =
        { p with
          responseCache := cacheWithout cert.name p
          registeredPrefixes := p.registeredPrefixes.erase (getPrefix cert.name)
          live := p.live.filter fun f => f.id ≠ id }) := by
  unfold CertPublisher.stopPublish
  rw [if_neg cert.name_ne_nil]
  by_cases hfind : ∃ c ∈ cacheWithout cert.name p, getPrefix cert.name <+: c.name
  · exact .inl ⟨hfind, if_pos hfind⟩
  · obtain ⟨id, hl⟩ := Option.isSome_iff_exists.1 (AList.lookup_isSome.2 ((h.prefixes _).2 ⟨cert, hc, rfl⟩))
    refine .inr ⟨hfind, id, hl, (if_neg hfind).trans ?_⟩
    rw [hl]
    rfl

theorem publishes_stopPublish (h : Publishes S p) (hc : cert ∈ S) (halone : DeletesAlone cert.name S) :
    Publishes (remaining cert.name S) (p.stopPublish cert.name) := by
  have hcached : ∀ c, c ∈ cacheWithout cert.name p ↔ c ∈ remaining cert.name S := by
    intro c
    rw [mem_cacheWithout h]
    constructor
    · rintro ⟨hcS, hno⟩
      exact ⟨hcS, fun he => hno (by rw [he])⟩
    · rintro hr
      exact ⟨hr.1, halone.1 c hr⟩
  rcases stopPublish_cases h hc with ⟨⟨d, hd, hdp⟩, heq⟩ | ⟨hno, id, hl, heq⟩
  · rw [heq]
    refine ⟨hcached, fun n => ?_, h.filters.withCache _, h.running⟩
    rw [h.prefixes]
    constructor
    · rintro ⟨c, hcS, hn⟩
      by_cases hcn : c.name = cert.name
      · -- another certificate keeps the prefix
        obtain ⟨e, he, hep⟩ := halone.2 ⟨d, (hcached d).1 hd, hdp⟩
        exact ⟨e, he, by rw [hep, ← hcn, hn]⟩
      · exact ⟨c, ⟨hcS, hcn⟩, hn⟩
    · rintro ⟨c, hcr, hn⟩
      exact ⟨c, hcr.1, hn⟩
  · rw [heq]
    refine ⟨hcached, fun n => AList.mem_erase.trans ?_, filters_unset h.filters hl _, h.running⟩
    rw [h.prefixes]
    constructor
    · rintro ⟨hne, c, hcS, hn⟩
      refine ⟨c, ⟨hcS, fun hcn => hne ?_⟩, hn⟩
      rw [← hn, hcn]
    · rintro ⟨c, hcr, rfl⟩
      refine ⟨fun he => hno ⟨c, (hcached c).2 hcr, ?_⟩, c, hcr.1, rfl⟩
      rw [← he]
      exact List.dropLast_prefix _

theorem deletesAlone_of_mirrors (h : Publishes S p) (hc : cert ∈ S)
    (hm : Mirrors (remaining cert.name S) (p.stopPublish cert.name)) : DeletesAlone cert.name S := by
  have hcache : (p.stopPublish cert.name).responseCache = cacheWithout cert.name p := by
    rcases stopPublish_cases h hc with ⟨-, heq⟩ | ⟨-, id, -, heq⟩ <;> rw [heq]
  have hcached : ∀ c ∈ remaining cert.name S, c ∈ cacheWithout cert.name p := fun c hr => by
    rw [← hcache]
    exact (hm.cached c).2 hr
  refine ⟨fun c hr => ((mem_cacheWithout h).1 (hcached c hr)).2, ?_⟩
  rintro ⟨d, hd, hdp⟩
  rcases stopPublish_cases h hc with ⟨-, heq⟩ | ⟨hno, -⟩
  · refine (hm.prefixes _).1 ?_
    rw [heq]
    exact (h.prefixes _).2 ⟨cert, hc, rfl⟩
  · exact absurd ⟨d, hcached d hd, hdp⟩ hno

/-- An answer that a registration has succeeded. -/
theorem publishes_registered (h : Publishes S p) (f : InterestFilter) :
    Publishes S { p with pending := p.pending.filter (· ≠ f) } := by
  refine ⟨h.cached, h.prefixes, h.filters.of_subset rfl (fun g hg => ?_) h.filters.recorded h.filters.live, h.running⟩
  rcases List.mem_append.1 hg with hg | hg
  · exact List.mem_append_left _ hg
  · exact List.mem_append_right _ (List.mem_filter.1 hg).1

/-- The failed filter is the one that is recorded, if any is. -/
def FailsRecorded (f : InterestFilter) (p : CertPublisher) : Prop :=
  ∀ id, p.registeredPrefixes.lookup f.registeredPrefix = some id → id = f.id

omit [Certificates] in
/-- The filters but `f`. -/
theorem mem_without {l : List InterestFilter} : g ∈ l.filter (· ≠ f) ↔ g ∈ l ∧ g ≠ f := by simp

omit [Certificates] in
theorem mem_append_without {l l' : List InterestFilter} (hg : g ∈ l.filter (· ≠ f) ++ l'.filter (· ≠ f)) :
    g ∈ l ++ l' :=
  (List.mem_append.1 hg).elim (fun hg => List.mem_append_left _ (mem_without.1 hg).1)
    fun hg => List.mem_append_right _ (mem_without.1 hg).1

theorem publishes_registrationFailed (h : Publishes S p) (hf : f ∈ p.pending) (hrec : FailsRecorded f p) :
    Publishes S (p.registrationFailed f) := by
  have hfp : f ∈ p.live ++ p.pending := List.mem_append_right _ hf
  cases hl : p.registeredPrefixes.lookup f.registeredPrefix with
  | none =>
    simp only [CertPublisher.registrationFailed, hl]
    refine ⟨h.cached, h.prefixes, h.filters.of_subset rfl (fun g hg => mem_append_without hg)
      (fun g hg => h.filters.recorded g (mem_without.1 hg).1) fun n id hn => ?_, h.running⟩
    obtain ⟨g, hg, hid, hp⟩ := h.filters.live n id hn
    refine ⟨g, mem_without.2 ⟨hg, ?_⟩, hid, hp⟩
    -- the failed filter has no record
    rintro rfl
    rw [← hp, hl] at hn
    cases hn
  | some id =>
    have hid : id = f.id := hrec id hl
    subst hid
    have hother : ∀ {g}, g ∈ p.live → g ≠ f → g.registeredPrefix ≠ f.registeredPrefix := by
      intro g hg hne he
      have hgl := h.filters.recorded g hg
      rw [he, hl] at hgl
      exact hne (h.filters.unique g (List.mem_append_left _ hg) f hfp (Option.some.inj hgl).symm)
    simp only [CertPublisher.registrationFailed, hl]
    refine publishes_registerCertPrefix (h.filters.of_subset rfl (fun g hg => mem_append_without hg)
      (fun g hg => ?_) fun n id hn => ?_) (h.filters.named f hfp) h.running h.cached fun n => ?_
    · obtain ⟨hg, hne⟩ := mem_without.1 hg
      exact (AList.lookup_erase_ne (hother hg hne)).trans (h.filters.recorded g hg)
    · have hnf : n ≠ f.registeredPrefix := by
        rintro rfl
        cases (AList.lookup_erase _ _).symm.trans hn
      obtain ⟨g, hg, hid, hp⟩ := h.filters.live n id ((AList.lookup_erase_ne hnf).symm.trans hn)
      exact ⟨g, mem_without.2 ⟨hg, fun he => hnf (by rw [← hp, he])⟩, hid, hp⟩
    · have hmem : f.registeredPrefix ∈ p.registeredPrefixes := AList.lookup_isSome.1 (by rw [hl]; rfl)
      rw [← h.prefixes, AList.mem_erase]
      constructor
      · rintro (⟨-, hn⟩ | rfl)
        · exact hn
        · exact hmem
      · intro hn
        by_cases he : n = f.registeredPrefix
        · exact .inr he
        · exact .inl ⟨he, hn⟩

/-- A failed filter with another's record leaves two for its prefix. -/
theorem failsRecorded_of_mirrors (h : Publishes S p) (hf : f ∈ p.pending)
    (hm : Mirrors S (p.registrationFailed f)) : FailsRecorded f p := by
  intro id hl
  by_contra hne
  obtain ⟨g, hg, rfl, hp⟩ := h.filters.live _ id hl
  have hgf : g ≠ f := fun he => hne (by rw [he])
  have heq : p.registrationFailed f = CertPublisher.setInterestFilter f.certName { p with
      live := p.live.filter (· ≠ f)
      pending := p.pending.filter (· ≠ f)
      registeredPrefixes := p.registeredPrefixes.erase f.registeredPrefix } := by
    unfold CertPublisher.registrationFailed CertPublisher.registerCertPrefix
    simp only [hl, if_neg (h.filters.named f (List.mem_append_right _ hf))]
    rw [show (p.registeredPrefixes.erase f.registeredPrefix).lookup (getPrefix f.certName) = none from
      AList.lookup_erase _ _]
  rw [heq] at hm
  have hrec := hm.recorded g (List.mem_cons_of_mem _ (mem_without.2 ⟨hg, hgf⟩))
  rw [hp] at hrec
  have hid := (AList.lookup_insert _).symm.trans hrec
  exact absurd (h.filters.fresh g (List.mem_append_left _ hg)) (by rw [← Option.some.inj hid]; exact lt_irrefl _)

/-! ## The table and its publisher -/

/-- The certificates of the table, whose names are unique, are published. -/
structure Published (s : PublishedTable) : Prop where
  names : (s.certificates.map fun c => c.name).Nodup
  publishes : Publishes {c | c ∈ s.certificates} s.publisher

/-- A deletion takes no other certificate with it, and a failed filter is the recorded one. -/
def Orderly (s : PublishedTable) : PublisherEvent → Prop
  | .deleted certificateName => DeletesAlone certificateName {c | c ∈ s.certificates}
  | .failed f => FailsRecorded f s.publisher
  | _ => True

instance (certName : Name) (certificates : List IdentityCertificate) :
    Decidable (DeletesAlone certName {c | c ∈ certificates}) :=
  decidable_of_iff
    ((∀ c ∈ certificates, c.name ≠ certName → ¬ certName <+: c.name) ∧
      ((∃ c ∈ certificates, c.name ≠ certName ∧ getPrefix certName <+: c.name) →
        ∃ c ∈ certificates, c.name ≠ certName ∧ getPrefix c.name = getPrefix certName))
    (by simp only [DeletesAlone, remaining, Set.mem_ofPred_eq, and_imp, and_assoc])

instance (f : InterestFilter) (p : CertPublisher) : Decidable (FailsRecorded f p) :=
  inferInstanceAs (Decidable (∀ id ∈ p.registeredPrefixes.lookup f.registeredPrefix, id = f.id))

instance (s : PublishedTable) : (e : PublisherEvent) → Decidable (Orderly s e)
  | .inserted _ => isTrue trivial
  | .deleted certName => inferInstanceAs (Decidable (DeletesAlone certName {c | c ∈ s.certificates}))
  | .registered _ => isTrue trivial
  | .failed f => inferInstanceAs (Decidable (FailsRecorded f s.publisher))

variable {s : PublishedTable}

/-- `getCertificate` finds the certificate of a name. -/
theorem find_name (hnd : (certificates.map fun c => c.name).Nodup) (hc : cert ∈ certificates) :
    certificates.find? (fun c => c.name = cert.name) = some cert := by
  cases hf : certificates.find? fun c => c.name = cert.name with
  | none => exact absurd (decide_eq_true rfl) (List.find?_eq_none.1 hf cert hc)
  | some d =>
    have hn : d.name = cert.name := by simpa using List.find?_some hf
    rw [List.inj_on_of_nodup_map hnd (List.mem_of_find?_eq_some hf) hc hn]

theorem published_inserted (h : Published s) (hnew : ∀ c ∈ s.certificates, c.name ≠ cert.name) :
    Published (s.step (.inserted cert)) := by
  have hnd : ((s.certificates ++ [cert]).map fun c => c.name).Nodup := by
    rw [List.map_append]
    refine List.nodup_append.2 ⟨h.names, List.nodup_singleton _, fun n hn m hm => ?_⟩
    obtain ⟨c, hc, rfl⟩ := List.mem_map.1 hn
    rw [List.mem_singleton.1 hm]
    exact hnew c hc
  have hset : {c | c ∈ s.certificates ++ [cert]} = insert cert {c | c ∈ s.certificates} := by
    ext c
    simp [or_comm]
  refine ⟨hnd, ?_⟩
  change Publishes {c | c ∈ s.certificates ++ [cert]} _
  rw [hset]
  exact publishes_startPublish h.publishes (find_name hnd (List.mem_append_right _ (List.mem_singleton_self cert)))

theorem setOf_deleted (certName : Name) (certificates : List IdentityCertificate) :
    {c | c ∈ certificates.filter fun c => c.name ≠ certName} = remaining certName {c | c ∈ certificates} := by
  ext c
  simp [remaining]

theorem published_deleted (h : Published s) (hc : cert ∈ s.certificates)
    (halone : DeletesAlone cert.name {c | c ∈ s.certificates}) : Published (s.step (.deleted cert.name)) := by
  refine ⟨(List.filter_sublist.map _).nodup h.names, ?_⟩
  change Publishes {c | c ∈ s.certificates.filter fun c => c.name ≠ cert.name} _
  rw [setOf_deleted]
  exact publishes_stopPublish h.publishes hc halone

theorem published_step (h : Published s) {e : PublisherEvent} (he : s.enabled e) (ho : Orderly s e) :
    Published (s.step e) := by
  cases e with
  | inserted cert => exact published_inserted h he
  | deleted certName =>
    obtain ⟨cert, hc, rfl⟩ := he
    exact published_deleted h hc ho
  | registered f => exact ⟨h.names, publishes_registered h.publishes f⟩
  | failed f => exact ⟨h.names, publishes_registrationFailed h.publishes he ho⟩

theorem orderly_of_mirrors (h : Published s) {e : PublisherEvent} (he : s.enabled e)
    (hm : Mirrors {c | c ∈ (s.step e).certificates} (s.step e).publisher) : Orderly s e := by
  cases e with
  | inserted cert => trivial
  | deleted certName =>
    obtain ⟨cert, hc, rfl⟩ := he
    change Mirrors {c | c ∈ s.certificates.filter fun c => c.name ≠ cert.name} _ at hm
    rw [setOf_deleted] at hm
    exact deletesAlone_of_mirrors h.publishes hc hm
  | registered f => trivial
  | failed f => exact failsRecorded_of_mirrors h.publishes he hm

/-! ## The constructor -/

theorem publishes_empty : Publishes ∅ CertPublisher.empty where
  cached c := by simp [CertPublisher.empty]
  prefixes n := by simp [CertPublisher.empty]
  filters :=
    { recorded := fun f hf => nomatch hf
      live := fun n id hl => nomatch hl
      named := fun f hf => nomatch hf
      fresh := fun f hf => nomatch hf
      unique := fun f hf => nomatch hf }
  running := rfl

/-- The certificates of the names are published one after the other. -/
theorem publishes_foldl (hnd : (certificates.map fun c => c.name).Nodup) :
    ∀ {ns : List Name} {S : Set IdentityCertificate} {p : CertPublisher}, Publishes S p →
      (∀ n ∈ ns, ∃ c ∈ certificates, c.name = n) →
      Publishes (S ∪ {c | c ∈ certificates ∧ c.name ∈ ns}) (ns.foldl (CertPublisher.startPublish certificates) p)
  | [], S, p, h, _ => by simpa using h
  | n :: ns, S, p, h, hns => by
    obtain ⟨cert, hc, rfl⟩ := hns n List.mem_cons_self
    have hstep := publishes_startPublish h (find_name hnd hc)
    have hrest := publishes_foldl hnd hstep fun m hm => hns m (List.mem_cons_of_mem _ hm)
    have hset : insert cert S ∪ {c | c ∈ certificates ∧ c.name ∈ ns} =
        S ∪ {c | c ∈ certificates ∧ c.name ∈ cert.name :: ns} := by
      ext c
      simp only [Set.mem_union, Set.mem_insert_iff, Set.mem_ofPred_eq, List.mem_cons]
      constructor
      · rintro ((rfl | hS) | ⟨hc', hn⟩)
        · exact .inr ⟨hc, .inl rfl⟩
        · exact .inl hS
        · exact .inr ⟨hc', .inr hn⟩
      · rintro (hS | ⟨hc', hn | hn⟩)
        · exact .inl (.inr hS)
        · exact .inl (.inl (List.inj_on_of_nodup_map hnd hc' hc hn))
        · exact .inr ⟨hc', hn⟩
    rw [← hset]
    exact hrest

variable {db : Db}

/-- Every certificate belongs to a key, and this to an identity. -/
theorem mem_allCertNames (h : db.Integrity) :
    n ∈ CertPublisher.allCertNames db ↔ ∃ c ∈ db.certificates, c.name = n := by
  simp only [CertPublisher.allCertNames, Db.listIdentities, Db.listKeyNamesOfIdentity, Db.listCertNamesOfKey,
    List.mem_flatMap, List.mem_map, List.mem_filter, decide_eq_true_eq]
  constructor
  · rintro ⟨-, -, -, -, c, ⟨hc, -⟩, hn⟩
    exact ⟨c, hc, hn⟩
  · rintro ⟨c, hc, hn⟩
    obtain ⟨-, k, hk, hkc, -⟩ := h.certOf c hc
    obtain ⟨-, i, hi, hik, -⟩ := h.keyOf k hk
    exact ⟨i.name, ⟨i, hi, rfl⟩, k.name, ⟨k, ⟨hk, i, hi, hik, rfl⟩, rfl⟩, c, ⟨hc, k, hk, hkc, rfl⟩, hn⟩

theorem published_init (h : db.Integrity) : Published (.init db) := by
  have hname : ∀ c ∈ db.certificates, c.data.name = c.name := fun c hc => (h.certOf c hc).1.symm
  have hnames : (db.certificateData.map fun c => c.name) = db.certificates.map fun c => c.name := by
    unfold Db.certificateData
    rw [List.map_map]
    exact List.map_congr_left hname
  have hnd : (db.certificateData.map fun c => c.name).Nodup := by
    rw [hnames]
    exact h.certificates.names
  have hmem : ∀ n, n ∈ CertPublisher.allCertNames db ↔ ∃ c ∈ db.certificateData, c.name = n := by
    intro n
    rw [mem_allCertNames h, ← List.mem_map, ← List.mem_map, hnames]
  refine ⟨hnd, ?_⟩
  have hall := publishes_foldl hnd publishes_empty fun n hn => (hmem n).1 hn
  have hset : (∅ : Set IdentityCertificate) ∪ {c | c ∈ db.certificateData ∧ c.name ∈ CertPublisher.allCertNames db} =
      {c | c ∈ db.certificateData} := by
    ext c
    simp only [Set.empty_union, Set.mem_ofPred_eq, and_iff_left_iff_imp]
    exact fun hc => (hmem c.name).2 ⟨c, hc, rfl⟩
  rw [hset] at hall
  exact hall

/-! ## Runs -/

/-- In every run of operations on the database and answers of the Face, the publisher mirrors the table of
certificates after every row and every answer, exactly if every one of them is orderly. -/
theorem mirrors_iff (h : db.Integrity) {as : List PublisherAction}
    (hr : publishedDb.Runs (db, .init db) as) :
    publisherMachine.Always (fun s => Mirrors {c | c ∈ s.certificates} s.publisher) (.init db) (actionEvents db as) ↔
      publisherMachine.Each Orderly (.init db) (actionEvents db as) :=
  Machine.always_iff_each (fun _ hs => hs.publishes.mirrors) (fun _ _ hs he ho => published_step hs he ho)
    (fun _ _ hs he hm => orderly_of_mirrors hs he hm) (published_init h) (publishedDb_spec as h rfl hr).1

end

/-! ## Examples -/

section
local instance namesAsDocumented : Certificates := .documented

def certA1 : IdentityCertificate := ⟨["a", "KEY", "k", "ID-CERT", "1"], ["a", "k"], [48], [], by decide +kernel, rfl⟩

def certA2 : IdentityCertificate := ⟨["a", "KEY", "k", "ID-CERT", "2"], ["a", "k"], [48], [], by decide +kernel, rfl⟩

/-- Its name is under that of the other. -/
def certA1x : IdentityCertificate := ⟨["a", "KEY", "k", "ID-CERT", "1", "x"], ["a", "k"], [48], [], by decide +kernel, rfl⟩

/-- The registration for two certificates of a key fails and is repeated, and the key is deleted. -/
theorem mirrors_iff_retried :
    publisherMachine.Always (fun s => Mirrors {c | c ∈ s.certificates} s.publisher) (.init Db.empty)
      (actionEvents Db.empty
        [.operation (.addCertificate certA1), .operation (.addCertificate certA2), .failed ⟨0, certA1.name⟩,
          .registered ⟨1, certA1.name⟩, .operation (.deleteKey ["a", "k"])]) :=
  (mirrors_iff Db.integrity_empty (by decide +kernel)).2 (by decide +kernel)

/-- A certificate is deleted and inserted again, and then the registration of its first filter fails. -/
def staleFailure : List PublisherAction :=
  [.operation (.addCertificate certA1), .operation (.deleteCertificate certA1.name),
    .operation (.addCertificate certA1), .failed ⟨0, certA1.name⟩]

/-- A certificate is deleted whose name is a prefix of another's. -/
def deletedPrefix : List PublisherAction :=
  [.operation (.addCertificate certA1), .operation (.addCertificate certA1x),
    .operation (.deleteCertificate certA1.name)]

/-- The second filter stays live without its record, and the other certificate is no longer cached. -/
theorem not_mirrored :
    (publishedDb.Runs (Db.empty, .init Db.empty) staleFailure ∧
      ¬ publisherMachine.Always (fun s => Mirrors {c | c ∈ s.certificates} s.publisher) (.init Db.empty)
        (actionEvents Db.empty staleFailure)) ∧
    publishedDb.Runs (Db.empty, .init Db.empty) deletedPrefix ∧
      ¬ publisherMachine.Always (fun s => Mirrors {c | c ∈ s.certificates} s.publisher) (.init Db.empty)
        (actionEvents Db.empty deletedPrefix) := by
  refine ⟨⟨by decide +kernel, fun hall => ?_⟩, by decide +kernel, fun hall => ?_⟩
  · have hm := Machine.always_last _ _ hall
    have hrec := hm.recorded ⟨1, certA1.name⟩ (by decide +kernel)
    exact absurd hrec (by decide +kernel)
  · have hm := Machine.always_last _ _ hall
    have hcached := (hm.cached certA1x).2 (by decide +kernel)
    exact absurd hcached (by decide +kernel)

end

end NdnTools.Pib
