/-
A finite map kept in key order (the ordered map of a standard library): the entries are a list
strictly increasing in the key, and the order is part of the type.
-/
import Mathlib.Order.Lattice
import Mathlib.Data.List.Basic

/-- A map whose entries are listed in strictly increasing key order. -/
structure SortedMap (κ ν : Type*) [LinearOrder κ] where
  entries : List (κ × ν)
  sorted : entries.Pairwise fun a b => a.1 < b.1

namespace SortedMap

variable {κ ν : Type*} [LinearOrder κ]

/-- The map without entries. -/
def empty : SortedMap κ ν := ⟨[], .nil⟩

/-- Insert an entry into a sorted list, replacing the entry of an equal key. -/
def assignList (k : κ) (v : ν) : List (κ × ν) → List (κ × ν)
  | [] => [(k, v)]
  | e :: l => if k < e.1 then (k, v) :: e :: l else if k = e.1 then (k, v) :: l else e :: assignList k v l

theorem mem_assignList {k : κ} {v : ν} {e : κ × ν} :
    ∀ {l : List (κ × ν)}, l.Pairwise (fun a b => a.1 < b.1) →
      (e ∈ assignList k v l ↔ e = (k, v) ∨ (e ∈ l ∧ e.1 ≠ k))
  | [], _ => by simp [assignList]
  | f :: l, hs => by
    have hf := List.pairwise_cons.1 hs
    have ih := mem_assignList (k := k) (v := v) (e := e) hf.2
    -- the keys of the tail are after that of the head
    have hne : ∀ g ∈ l, k ≤ f.1 → g.1 ≠ k := fun g hg hk h =>
      absurd (hf.1 g hg) (by rw [h]; exact not_lt.2 hk)
    simp only [assignList]
    split
    · rename_i hlt
      simp only [List.mem_cons]
      constructor
      · rintro (rfl | rfl | hm)
        · exact .inl rfl
        · exact .inr ⟨.inl rfl, ne_of_gt hlt⟩
        · exact .inr ⟨.inr hm, hne e hm (le_of_lt hlt)⟩
      · rintro (rfl | ⟨rfl | hm, -⟩)
        exacts [.inl rfl, .inr (.inl rfl), .inr (.inr hm)]
    · rename_i hlt
      split
      · rename_i heq
        simp only [List.mem_cons]
        constructor
        · rintro (rfl | hm)
          · exact .inl rfl
          · exact .inr ⟨.inr hm, hne e hm (le_of_eq heq)⟩
        · rintro (rfl | ⟨rfl | hm, hk⟩)
          · exact .inl rfl
          · exact absurd heq.symm hk
          · exact .inr hm
      · rename_i heq
        simp only [List.mem_cons, ih]
        constructor
        · rintro (rfl | rfl | ⟨hm, hk⟩)
          · exact .inr ⟨.inl rfl, fun h => heq h.symm⟩
          · exact .inl rfl
          · exact .inr ⟨.inr hm, hk⟩
        · rintro (rfl | ⟨rfl | hm, hk⟩)
          exacts [.inr (.inl rfl), .inl rfl, .inr (.inr ⟨hm, hk⟩)]

theorem assignList_sorted (k : κ) (v : ν) :
    ∀ {l : List (κ × ν)}, l.Pairwise (fun a b => a.1 < b.1) →
      (assignList k v l).Pairwise fun a b => a.1 < b.1
  | [], _ => by simp [assignList]
  | f :: l, hs => by
    have hf := List.pairwise_cons.1 hs
    simp only [assignList]
    split
    · rename_i hlt
      refine List.pairwise_cons.2 ⟨fun g hg => ?_, hs⟩
      rcases List.mem_cons.1 hg with rfl | hg
      · exact hlt
      · exact lt_trans hlt (hf.1 g hg)
    · rename_i hlt
      split
      · rename_i heq
        exact List.pairwise_cons.2 ⟨fun g hg => by rw [heq]; exact hf.1 g hg, hf.2⟩
      · rename_i heq
        refine List.pairwise_cons.2 ⟨fun g hg => ?_, assignList_sorted k v hf.2⟩
        rcases (mem_assignList hf.2).1 hg with rfl | ⟨hg, -⟩
        · exact lt_of_le_of_ne (not_lt.1 hlt) (fun h => heq h.symm)
        · exact hf.1 g hg

/-- Assignment through `operator[]`: insert the key or replace its value. -/
def assign (k : κ) (v : ν) (m : SortedMap κ ν) : SortedMap κ ν :=
  ⟨assignList k v m.entries, assignList_sorted k v m.sorted⟩

/-- The first entry, if any. -/
def first? (m : SortedMap κ ν) : Option (κ × ν) := m.entries.head?

/-- The map without its first entry. -/
def eraseFirst (m : SortedMap κ ν) : SortedMap κ ν := ⟨m.entries.tail, m.sorted.tail⟩

theorem mem_assign {k : κ} {v : ν} {m : SortedMap κ ν} {e : κ × ν} :
    e ∈ (m.assign k v).entries ↔ e = (k, v) ∨ (e ∈ m.entries ∧ e.1 ≠ k) := mem_assignList m.sorted

/-- The first entry has the least key. -/
theorem first?_le {m : SortedMap κ ν} {e f : κ × ν} (h : m.first? = some e) (hf : f ∈ m.entries) :
    e.1 ≤ f.1 := by
  obtain ⟨l, hl⟩ := List.head?_eq_some_iff.1 h
  have hs := m.sorted
  rw [hl] at hs hf
  rcases List.mem_cons.1 hf with rfl | hf
  · exact le_rfl
  · exact le_of_lt ((List.pairwise_cons.1 hs).1 f hf)

/-- Erasing the first entry keeps exactly the entries of the other keys. -/
theorem mem_eraseFirst {m : SortedMap κ ν} {e f : κ × ν} (h : m.first? = some e) :
    f ∈ m.eraseFirst.entries ↔ f ∈ m.entries ∧ f.1 ≠ e.1 := by
  obtain ⟨l, hl⟩ := List.head?_eq_some_iff.1 h
  have hs := m.sorted
  rw [hl] at hs
  have hlt := (List.pairwise_cons.1 hs).1
  simp only [eraseFirst, hl, List.tail_cons, List.mem_cons]
  constructor
  · intro hf
    exact ⟨.inr hf, ne_of_gt (hlt f hf)⟩
  · rintro ⟨rfl | hf, hne⟩
    · exact absurd rfl hne
    · exact hf

theorem first?_eq_none {m : SortedMap κ ν} : m.first? = none ↔ m.entries = [] := List.head?_eq_none_iff

theorem first?_mem {m : SortedMap κ ν} {e : κ × ν} (h : m.first? = some e) : e ∈ m.entries :=
  List.mem_of_mem_head? h

theorem length_eraseFirst {m : SortedMap κ ν} {e : κ × ν} (h : m.first? = some e) :
    m.eraseFirst.entries.length + 1 = m.entries.length := by
  obtain ⟨l, hl⟩ := List.head?_eq_some_iff.1 h
  simp [eraseFirst, hl]

end SortedMap
