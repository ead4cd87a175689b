/-
The keys of a finite map whose value satisfies a test, as a `Finset`: its size is a count over the
entries, and it follows a change of one key and the loss of some. And the part of a map whose keys
satisfy a test.
-/
import Mathlib.Data.List.AList
import Mathlib.Data.Finset.Card

namespace AList

variable {κ ν : Type*} [DecidableEq κ]

/-- The keys whose value passes the test `p`. -/
def keysWhere (p : ν → Bool) (m : AList fun _ : κ => ν) : Finset κ :=
  ((m.entries.filter fun e => p e.2).map Sigma.fst).toFinset

theorem mem_keysWhere {p : ν → Bool} {m : AList fun _ : κ => ν} {k : κ} :
    k ∈ m.keysWhere p ↔ ∃ v, m.lookup k = some v ∧ p v = true := by
  simp only [keysWhere, List.mem_toFinset, List.mem_map, List.mem_filter]
  constructor
  · rintro ⟨⟨k', v⟩, ⟨hm, hp⟩, rfl⟩
    exact ⟨v, mem_lookup_iff.2 hm, hp⟩
  · rintro ⟨v, hl, hp⟩
    exact ⟨⟨k, v⟩, ⟨mem_lookup_iff.1 hl, hp⟩, rfl⟩

/-- The number of keys that pass the test is the number of entries that do. -/
theorem card_keysWhere (p : ν → Bool) (m : AList fun _ : κ => ν) :
    (m.keysWhere p).card = m.entries.countP fun e => p e.2 := by
  have hsub : ((m.entries.filter fun e => p e.2).map Sigma.fst).Sublist m.keys :=
    (List.filter_sublist).map _
  rw [keysWhere, List.toFinset_card_of_nodup (hsub.nodup m.keys_nodup), List.length_map,
    List.countP_eq_length_filter]

/-- A map without entries is a map without keys. -/
theorem entries_eq_nil_iff {m : AList fun _ : κ => ν} : m.entries = [] ↔ ∀ k, m.lookup k = none := by
  constructor
  · intro h k
    rw [lookup_eq_none, mem_keys, keys, h]; simp
  · intro h
    by_contra hne
    obtain ⟨⟨k, v⟩, hm⟩ := List.exists_mem_of_ne_nil _ hne
    have hk := mem_lookup_iff.2 hm
    rw [h k] at hk; cases hk

/-- A map that differs from another in one key. -/
theorem keysWhere_of_update (p : ν → Bool) {m m' : AList fun _ : κ => ν} {k : κ} {o : Option ν}
    (h : ∀ j, m'.lookup j = if j = k then o else m.lookup j) :
    m'.keysWhere p = if o.any p = true then Insert.insert k (m.keysWhere p) else (m.keysWhere p).erase k := by
  ext j
  rw [mem_keysWhere, h]
  by_cases hjk : j = k
  · subst hjk
    rw [if_pos rfl]
    cases o with
    | none => simp
    | some v => cases hp : p v <;> simp [hp]
  · rw [if_neg hjk]
    split <;> simp [hjk, mem_keysWhere]

/-- A map that lacks the keys outside `q`. -/
theorem keysWhere_of_filter (p : ν → Bool) {m m' : AList fun _ : κ => ν} {q : κ → Prop} [DecidablePred q]
    (h : ∀ j, m'.lookup j = if q j then m.lookup j else none) : m'.keysWhere p = (m.keysWhere p).filter q := by
  ext j
  rw [mem_keysWhere, h, Finset.mem_filter, mem_keysWhere]
  split <;> simp_all

/-! ## The part with certain keys -/

/-- The entries whose key passes the test `q`. -/
def filterKeys (q : κ → Bool) (m : AList fun _ : κ => ν) : AList fun _ : κ => ν where
  entries := m.entries.filter fun e => q e.1
  nodupKeys := m.nodupKeys.sublist List.filter_sublist

theorem lookup_filterKeys (q : κ → Bool) (m : AList fun _ : κ => ν) (k : κ) :
    (m.filterKeys q).lookup k = if q k then m.lookup k else none := by
  apply Option.ext
  intro v
  rw [← Option.mem_def, mem_lookup_iff]
  simp only [filterKeys, List.mem_filter]
  rw [← mem_lookup_iff, Option.mem_def]
  split <;> simp_all

theorem keysWhere_filterKeys (p : ν → Bool) (q : κ → Bool) (m : AList fun _ : κ => ν) :
    (m.filterKeys q).keysWhere p = (m.keysWhere p).filter fun k => q k :=
  keysWhere_of_filter p (lookup_filterKeys q m)

/-- Every key, as a set. -/
def allKeys (m : AList fun _ : κ => ν) : Finset κ := m.keysWhere fun _ => true

theorem mem_allKeys {m : AList fun _ : κ => ν} {k : κ} : k ∈ m.allKeys ↔ ∃ v, m.lookup k = some v := by
  simp [allKeys, mem_keysWhere]

theorem keysWhere_subset_allKeys (p : ν → Bool) (m : AList fun _ : κ => ν) : m.keysWhere p ⊆ m.allKeys := by
  intro k hk
  obtain ⟨v, hv, -⟩ := mem_keysWhere.1 hk
  exact mem_allKeys.2 ⟨v, hv⟩

/-- How many keys pass the test `q`. -/
theorem card_filter_allKeys (q : κ → Bool) (m : AList fun _ : κ => ν) :
    (m.allKeys.filter fun k => q k).card = m.keys.countP q := by
  rw [allKeys, ← keysWhere_filterKeys, card_keysWhere, List.countP_true, keys, List.keys, List.countP_map,
    List.countP_eq_length_filter]
  rfl

end AList
