/-
`KeyCache` (`key-cache.cpp`): the keys that the validator has looked up, with the one used least recently
dropped when there is no room. Its container has two indices over the same entries, one that finds them by
name and one that is a sequence; an entry is used by taking it out and inserting it again, which puts it
at the end of the sequence. To an observer that is a list of the entries by their last use (`list`).
-/
import NdnTools.Lib.LruCache
import NdnTools.Pib.Name
import Mathlib.Data.List.AList

namespace NdnTools.Pib

structure KeyCacheEntry where
  name : Name
  key : PublicKey
  deriving Repr, DecidableEq

/-- The entries in both indices: by name, in no order, and the names of the entries in the sequence. -/
structure KeyContainer where
  byName : AList fun _ : Name => KeyCacheEntry
  byUsedTime : List Name
  sameEntries : ∀ n, n ∈ byUsedTime ↔ n ∈ byName
  distinct : byUsedTime.Nodup
  named : ∀ n e, byName.lookup n = some e → e.name = n

namespace KeyContainer

def empty : KeyContainer where
  byName := ∅
  byUsedTime := []
  sameEntries n := by simp [AList.notMem_empty]
  distinct := List.nodup_nil
  named n e h := by simp at h

def size (c : KeyContainer) : ℕ := c.byUsedTime.length

def find (name : Name) (c : KeyContainer) : Option KeyCacheEntry := c.byName.lookup name

/-- Takes the entry with the name out of both indices. -/
def erase (name : Name) (c : KeyContainer) : KeyContainer where
  byName := c.byName.erase name
  byUsedTime := c.byUsedTime.erase name
  sameEntries n := by
    rw [c.distinct.mem_erase_iff, AList.mem_erase, c.sameEntries]
  distinct := c.distinct.erase name
  named n e h := by
    by_cases hn : n = name
    · rw [hn, AList.lookup_erase] at h; cases h
    · rw [AList.lookup_erase_ne hn] at h
      exact c.named n e h

/-- An entry goes to the end of the sequence; the index by name refuses one whose name is taken. -/
def insert (entry : KeyCacheEntry) (c : KeyContainer) : KeyContainer :=
  if h : entry.name ∈ c.byName then c
  else
    { byName := c.byName.insert entry.name entry
      byUsedTime := c.byUsedTime ++ [entry.name]
      sameEntries := fun n => by
        rw [List.mem_append, List.mem_singleton, AList.mem_insert, c.sameEntries]
        exact or_comm
      distinct := List.nodup_append.2 ⟨c.distinct, List.nodup_singleton _, fun a ha b hb hab => by
        rw [List.mem_singleton.1 hb] at hab
        exact h ((c.sameEntries _).1 (hab ▸ ha))⟩
      named := fun n e he => by
        by_cases hn : n = entry.name
        · rw [hn, AList.lookup_insert] at he
          cases he
          exact hn.symm
        · rw [AList.lookup_insert_ne hn] at he
          exact c.named n e he }

end KeyContainer

structure KeyCache where
  capacity : ℕ
  keys : KeyContainer

namespace KeyCache

def create (capacity : ℕ) : KeyCache := ⟨capacity, .empty⟩

def size (c : KeyCache) : ℕ := c.keys.size

/-- Takes out the first entry of the sequence. -/
def evictKey (c : KeyCache) : KeyCache :=
  match c.keys.byUsedTime with
  | [] => c
  | name :: _ => { c with keys := c.keys.erase name }

def adjustLru (entry : KeyCacheEntry) (c : KeyCache) : KeyCache :=
  { c with keys := (c.keys.erase entry.name).insert entry }

def insert (name : Name) (key : PublicKey) (c : KeyCache) : KeyCache :=
  match c.keys.find name with
  | some entry => c.adjustLru entry
  | none =>
    let c := if c.capacity ≤ c.size then c.evictKey else c
    { c with keys := c.keys.insert ⟨name, key⟩ }

/-- The key of a name, or the null pointer. -/
def find (name : Name) (c : KeyCache) : KeyCache × Option PublicKey :=
  match c.keys.find name with
  | none => (c, none)
  | some entry => (c.adjustLru entry, some entry.key)

def erase (name : Name) (c : KeyCache) : KeyCache :=
  match c.keys.find name with
  | some entry => { c with keys := c.keys.erase entry.name }
  | none => c

abbrev Call := LruCache.Call Name PublicKey

/-- The cache under calls in any order. -/
def calls : Machine KeyCache Call where
  enabled _ _ := True
  step c
    | .insert name key => c.insert name key
    | .find name => (c.find name).1
    | .erase name => c.erase name

def returned (c : KeyCache) : Call → List (Option PublicKey)
  | .find name => [(c.find name).2]
  | .insert _ _ | .erase _ => []

/-- The name that a call uses: one that is inserted, or found. -/
def used (c : KeyCache) : Call → List Name
  | .insert name _ => [name]
  | .find name => if (c.find name).2.isSome then [name] else []
  | .erase _ => []

/-! ## The list of the entries -/

/-- The entry of a name, as a pair. -/
def pairOf (c : KeyContainer) (name : Name) : Option (Name × PublicKey) :=
  (c.find name).map fun entry => (name, entry.key)

/-- The entries in the order of the sequence. -/
def list (c : KeyContainer) : List (Name × PublicKey) := c.byUsedTime.filterMap (pairOf c)

theorem mem_list {c : KeyContainer} {name : Name} {key : PublicKey} :
    (name, key) ∈ list c ↔ ∃ entry, c.find name = some entry ∧ entry.key = key := by
  unfold list pairOf
  simp only [List.mem_filterMap, Option.map_eq_some_iff, Prod.mk.injEq]
  constructor
  · rintro ⟨n, -, entry, hfind, rfl, rfl⟩
    exact ⟨entry, hfind, rfl⟩
  · rintro ⟨entry, hfind, rfl⟩
    refine ⟨name, (c.sameEntries name).2 ?_, entry, hfind, rfl, rfl⟩
    exact AList.lookup_isSome.1 (by rw [show c.byName.lookup name = some entry from hfind]; rfl)

theorem pairOf_of_mem {c : KeyContainer} {name : Name} (h : name ∈ c.byUsedTime) :
    (pairOf c name).map Prod.fst = some name := by
  have hmem := (c.sameEntries name).1 h
  obtain ⟨entry, hfind⟩ := Option.isSome_iff_exists.1 (AList.lookup_isSome.2 hmem)
  have hfind : c.find name = some entry := hfind
  simp only [pairOf, hfind, Option.map_some]

theorem map_fst_list (c : KeyContainer) : (list c).map Prod.fst = c.byUsedTime := by
  unfold list
  rw [List.map_filterMap, List.filterMap_congr fun n hn => pairOf_of_mem hn, List.filterMap_some]

theorem length_list (c : KeyContainer) : (list c).length = c.size := by
  rw [← List.length_map Prod.fst, map_fst_list]
  rfl

theorem list_erase (name : Name) (c : KeyContainer) :
    list (c.erase name) = (list c).filter fun e => e.1 ≠ name := by
  have hpair : ∀ n, (if n != name then pairOf (c.erase name) n else none) =
      (pairOf c n).filter fun e => e.1 ≠ name := by
    intro n
    by_cases hn : n = name
    · subst hn
      unfold pairOf
      cases hfind : c.find n <;> simp [Option.filter]
    · have hsame : (c.erase name).find n = c.find n := AList.lookup_erase_ne hn
      unfold pairOf
      cases hfind : c.find n <;> simp [hsame, hfind, hn, Option.filter]
  unfold list
  change List.filterMap _ (c.byUsedTime.erase name) = _
  rw [c.distinct.erase_eq_filter, List.filterMap_filter, List.filter_filterMap]
  exact List.filterMap_congr fun n _ => hpair n

theorem list_insert {entry : KeyCacheEntry} {c : KeyContainer} (h : entry.name ∉ c.byName) :
    list (c.insert entry) = list c ++ [(entry.name, entry.key)] := by
  have hold : ∀ n ∈ c.byUsedTime, pairOf (c.insert entry) n = pairOf c n := by
    intro n hn
    have hne : n ≠ entry.name := fun heq => h (heq ▸ (c.sameEntries n).1 hn)
    unfold pairOf KeyContainer.find KeyContainer.insert
    rw [dif_neg h]
    exact congrArg _ (AList.lookup_insert_ne hne)
  have hnew : pairOf (c.insert entry) entry.name = some (entry.name, entry.key) := by
    unfold pairOf KeyContainer.find KeyContainer.insert
    rw [dif_neg h]
    exact congrArg (Option.map fun e : KeyCacheEntry => (entry.name, e.key)) (AList.lookup_insert c.byName)
  have hsequence : (c.insert entry).byUsedTime = c.byUsedTime ++ [entry.name] := by
    unfold KeyContainer.insert
    rw [dif_neg h]
  unfold list
  rw [hsequence, List.filterMap_append, List.filterMap_congr hold, List.filterMap_cons_some hnew]
  rfl

/-! ## The cache as a list -/

/-- What an observer sees of the cache. -/
def view (c : KeyCache) : LruCache Name PublicKey where
  capacity := c.capacity
  entries := list c.keys
  unique := by
    rw [map_fst_list]
    exact c.keys.distinct

variable {c : KeyCache} {name : Name} {entry : KeyCacheEntry}

theorem notMem_list (h : c.keys.find name = none) (key : PublicKey) : (name, key) ∉ list c.keys := by
  intro hmem
  obtain ⟨entry, hentry, -⟩ := mem_list.1 hmem
  rw [h] at hentry
  cases hentry

theorem lookup_view (c : KeyCache) (name : Name) : c.view.lookup name = (c.keys.find name).map fun e => e.key := by
  cases hfind : c.keys.find name with
  | none => exact LruCache.lookup_of_notMem (notMem_list hfind)
  | some entry => exact LruCache.lookup_of_mem (mem_list.2 ⟨entry, hfind, rfl⟩)

theorem notMem_byName (h : c.keys.find name = none) : name ∉ c.keys.byName := AList.lookup_eq_none.1 h

theorem view_erase (c : KeyCache) (name : Name) : (c.erase name).view = c.view.erase name := by
  cases hfind : c.keys.find name with
  | none =>
    have hsame : c.erase name = c := by simp only [erase, hfind]
    rw [hsame]
    exact LruCache.eq_of_entries rfl (LruCache.entries_erase_of_notMem (notMem_list hfind)).symm
  | some entry =>
    have hname : entry.name = name := c.keys.named name entry hfind
    have herase : c.erase name = { c with keys := c.keys.erase name } := by simp only [erase, hfind, hname]
    rw [herase]
    exact LruCache.eq_of_entries rfl (list_erase name c.keys)

/-- Taken out and inserted again, an entry is listed last. -/
theorem view_adjustLru (h : c.keys.find name = some entry) : (c.adjustLru entry).view = c.view.use name entry.key := by
  have hname : entry.name = name := c.keys.named name entry h
  have hfree : entry.name ∉ (c.keys.erase entry.name).byName := by
    change entry.name ∉ c.keys.byName.erase entry.name
    simp [AList.mem_erase]
  refine LruCache.eq_of_entries rfl ?_
  change list ((c.keys.erase entry.name).insert entry) = (c.view.use name entry.key).entries
  rw [list_insert hfree, list_erase, hname]
  rfl

/-- The first entry of the sequence is the first of the list. -/
theorem view_evictKey (c : KeyCache) : c.evictKey.view = c.view.evict := by
  have hnames := map_fst_list c.keys
  refine LruCache.eq_of_entries ?_ ?_
  · unfold evictKey
    split <;> rfl
  · change list c.evictKey.keys = (list c.keys).tail
    unfold evictKey
    cases hlist : list c.keys with
    | nil =>
      rw [hlist] at hnames
      simp only [← hnames, List.map_nil]
      exact hlist
    | cons e rest =>
      have hdistinct := c.keys.distinct
      rw [hlist, List.map_cons] at hnames
      rw [← hnames, List.nodup_cons] at hdistinct
      simp only [← hnames]
      rw [list_erase, hlist, List.filter_cons_of_neg (by simp), List.tail_cons]
      refine List.filter_eq_self.2 fun d hd => decide_eq_true fun heq => hdistinct.1 ?_
      exact List.mem_map.2 ⟨d, hd, heq⟩

/-- Evicting brings no name in. -/
theorem find_evictKey (h : c.keys.find name = none) : c.evictKey.keys.find name = none := by
  unfold evictKey
  split
  · exact h
  · rename_i first rest hsequence
    by_cases hname : name = first
    · rw [hname]
      exact AList.lookup_erase _ _
    · exact (AList.lookup_erase_ne hname).trans h

theorem size_view (c : KeyCache) : c.view.size = c.size := length_list c.keys

theorem view_insert (c : KeyCache) (name : Name) (key : PublicKey) :
    (c.insert name key).view = c.view.insert name key := by
  unfold insert LruCache.insert
  rw [lookup_view]
  cases hfind : c.keys.find name with
  | some entry => exact view_adjustLru hfind
  | none =>
    -- the entry that is evicted is never the one inserted
    have hroom : ∀ d : KeyCache, d.keys.find name = none →
        view { d with keys := d.keys.insert ⟨name, key⟩ } = d.view.use name key := by
      intro d hd
      refine LruCache.eq_of_entries rfl ?_
      change list (d.keys.insert ⟨name, key⟩) = (d.view.erase name).entries ++ [(name, key)]
      rw [list_insert (notMem_byName hd), LruCache.entries_erase_of_notMem (notMem_list hd)]
      rfl
    simp only [Option.map_none]
    rw [hroom _ ?_]
    · rw [apply_ite view, view_evictKey, size_view]
      rfl
    · split
      · exact find_evictKey hfind
      · exact hfind

theorem view_find (c : KeyCache) (name : Name) :
    ((c.find name).1.view, (c.find name).2) = c.view.find name := by
  unfold find LruCache.find
  rw [lookup_view]
  cases hfind : c.keys.find name with
  | none => rfl
  | some entry => exact congrArg (fun d => (d, some entry.key)) (view_adjustLru hfind)

theorem find_eq_view (c : KeyCache) (name : Name) : (c.find name).2 = (c.view.find name).2 :=
  congrArg Prod.snd (view_find c name)

/-- The reference cache follows the calls step by step. -/
theorem view_step (c : KeyCache) (call : Call) : LruCache.calls.step c.view call = (calls.step c call).view := by
  cases call with
  | insert name key => exact (view_insert c name key).symm
  | find name => exact (congrArg Prod.fst (view_find c name)).symm
  | erase name => exact (view_erase c name).symm

theorem view_returned (c : KeyCache) (call : Call) : c.view.returned call = c.returned call := by
  cases call with
  | find name => exact congrArg (fun k => [k]) (find_eq_view c name).symm
  | insert name key => rfl
  | erase name => rfl

theorem view_used (c : KeyCache) (call : Call) : c.view.used call = c.used call := by
  cases call with
  | find name => exact congrArg (fun k : Option PublicKey => if k.isSome then [name] else []) (find_eq_view c name).symm
  | insert name key => rfl
  | erase name => rfl

theorem view_create (capacity : ℕ) : (create capacity).view = LruCache.empty capacity :=
  LruCache.eq_of_entries rfl rfl

theorem view_exec (capacity : ℕ) (cs : List Call) :
    (calls.exec (create capacity) cs).view = LruCache.calls.exec (LruCache.empty capacity) cs := by
  rw [← view_create]
  exact (Machine.exec_map view_step (create capacity) cs).symm

theorem recent_view {capacity : ℕ} (hcap : 1 ≤ capacity) (cs : List Call) :
    (calls.exec (create capacity) cs).view.Recent (calls.log used (create capacity) cs) := by
  rw [view_exec, ← Machine.log_map view_step view_used, view_create]
  exact LruCache.recent_exec hcap cs

/-! ## What each call does -/

/-- What every call does to the entries, listed by the uses that there were. -/
structure ActsAsLru (uses : List Name) (c : KeyCache) : Prop where
  find_hit : ∀ name key, (name, key) ∈ list c.keys →
    (c.find name).2 = some key ∧
      list (c.find name).1.keys = ((list c.keys).filter fun e => e.1 ≠ name) ++ [(name, key)]
  find_miss : ∀ name, name ∉ c.keys.byUsedTime → c.find name = (c, none)
  insert_present : ∀ name key old, (name, old) ∈ list c.keys →
    list (c.insert name key).keys = ((list c.keys).filter fun e => e.1 ≠ name) ++ [(name, old)]
  insert_new : ∀ name key, name ∉ c.keys.byUsedTime → c.size < c.capacity →
    list (c.insert name key).keys = list c.keys ++ [(name, key)]
  /-- The entry dropped is the one whose last use is the oldest. -/
  insert_full : ∀ name key, name ∉ c.keys.byUsedTime → c.size = c.capacity →
    ∃ oldest rest, list c.keys = oldest :: rest ∧
      (∀ e ∈ rest, LruCache.lastUse uses oldest.1 < LruCache.lastUse uses e.1) ∧
      list (c.insert name key).keys = rest ++ [(name, key)]
  erase : ∀ name, list (c.erase name).keys = (list c.keys).filter fun e => e.1 ≠ name

theorem find_eq_none (h : name ∉ c.keys.byUsedTime) : c.keys.find name = none := by
  rw [c.keys.sameEntries] at h
  exact AList.lookup_eq_none.2 h

theorem entries_insert (c : KeyCache) (name : Name) (key : PublicKey) :
    list (c.insert name key).keys = (c.view.insert name key).entries :=
  congrArg LruCache.entries (view_insert c name key)

theorem actsAsLru {uses : List Name} (hcap : 1 ≤ c.capacity) (h : c.view.Recent uses) : c.ActsAsLru uses := by
  have hsize : c.view.size = c.size := size_view c
  have hnew : ∀ name, name ∉ c.keys.byUsedTime → ∀ key, (name, key) ∉ c.view.entries :=
    fun name hname => notMem_list (find_eq_none hname)
  constructor
  case find_hit =>
    intro name key hmem
    have hview := view_find c name
    rw [LruCache.find_of_mem hmem, Prod.mk.injEq] at hview
    exact ⟨hview.2, congrArg LruCache.entries hview.1⟩
  case find_miss =>
    intro name hname
    unfold find
    rw [find_eq_none hname]
  case insert_present =>
    intro name key old hmem
    rw [entries_insert, LruCache.insert_of_mem hmem]
    rfl
  case insert_new =>
    intro name key hname hroom
    rw [entries_insert]
    exact LruCache.entries_insert_of_room (hnew name hname) (hsize.trans_lt hroom)
  case insert_full =>
    intro name key hname hfull
    obtain ⟨oldest, rest, hlist⟩ : ∃ oldest rest, list c.keys = oldest :: rest := by
      refine List.exists_cons_of_length_pos ?_
      rw [length_list]
      change 0 < c.size
      omega
    have hordered : (list c.keys).Pairwise fun e e' => LruCache.lastUse uses e.1 < LruCache.lastUse uses e'.1 :=
      h.ordered
    rw [hlist, List.pairwise_cons] at hordered
    refine ⟨oldest, rest, hlist, hordered.1, ?_⟩
    rw [entries_insert, LruCache.entries_insert_of_full (hnew name hname) (hfull.symm.le.trans hsize.symm.le)]
    change (list c.keys).tail ++ _ = _
    rw [hlist, List.tail_cons]
  case erase =>
    intro name
    exact congrArg LruCache.entries (view_erase c name)

/-- After any calls the cache is the reference one, gives the same answers, and acts on its entries as an
LRU map does. -/
theorem refines_lru (capacity : ℕ) (hcap : 1 ≤ capacity) (cs : List Call) :
    let c := calls.exec (create capacity) cs
    let uses := calls.log used (create capacity) cs
    c.view = LruCache.calls.exec (LruCache.empty capacity) cs ∧
      calls.log returned (create capacity) cs =
        LruCache.calls.log LruCache.returned (LruCache.empty capacity) cs ∧
      c.capacity = capacity ∧ c.size ≤ capacity ∧ ((list c.keys).map Prod.fst).Nodup ∧
      ((list c.keys).Pairwise fun a b => LruCache.lastUse uses a.1 < LruCache.lastUse uses b.1) ∧
      c.ActsAsLru uses := by
  intro c uses
  have hrecent : c.view.Recent uses := recent_view hcap cs
  have hcapacity : c.capacity = capacity := by
    have hview : c.view.capacity = (LruCache.calls.exec (LruCache.empty capacity) cs).capacity :=
      congrArg LruCache.capacity (view_exec capacity cs)
    exact hview.trans (LruCache.capacity_exec capacity cs)
  have hsize : c.size ≤ c.capacity := by
    rw [← size_view]
    exact hrecent.size
  have hreturned : calls.log returned (create capacity) cs =
      LruCache.calls.log LruCache.returned (LruCache.empty capacity) cs := by
    rw [← view_create]
    exact (Machine.log_map view_step view_returned _ cs).symm
  rw [hcapacity] at hsize
  exact ⟨view_exec capacity cs, hreturned, hcapacity, hsize, c.view.unique, hrecent.ordered,
    actsAsLru (by omega) hrecent⟩

/-- Four keys in a cache for three: the one dropped is the second, as the first was inserted once more. -/
theorem refines_lru_three :
    let cs : List Call := [.insert [[1]] [1], .insert [[2]] [2], .insert [[3]] [3], .insert [[1]] [1], .insert [[4]] [4]]
    1 ≤ 3 ∧ (calls.exec (create 3) cs).size ≤ 3 ∧
      list (calls.exec (create 3) cs).keys = [([[3]], [3]), ([[1]], [1]), ([[4]], [4])] := by
  intro cs
  obtain ⟨-, -, -, hsize, -⟩ := refines_lru 3 (by decide) cs
  exact ⟨by decide, hsize, by decide⟩

end KeyCache

end NdnTools.Pib
