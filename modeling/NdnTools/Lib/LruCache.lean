/-
A cache of bounded size in front of a store: it lists its entries by their last use and drops the one
used least recently when it is full. `Recent` says of a history of uses that the list is in the order of
the last ones. `Reflects` says that what it holds is what the store gives; looking up, inserting and
evicting keep that, and so does a change of the store if the keys it touches are erased.
-/
import NdnTools.Lib.Run
import Mathlib.Data.List.Nodup
import Mathlib.Tactic

/-- The keys are unique, and the entry used last stands last. -/
structure LruCache (κ ν : Type*) where
  capacity : ℕ
  entries : List (κ × ν)
  unique : (entries.map Prod.fst).Nodup
  deriving DecidableEq

namespace LruCache

variable {κ ν : Type*}

theorem eq_of_entries {c d : LruCache κ ν} (hcap : c.capacity = d.capacity) (h : c.entries = d.entries) : c = d := by
  obtain ⟨cap, entries, _⟩ := c
  obtain ⟨cap', entries', _⟩ := d
  simp only at hcap h
  subst hcap h
  rfl

def empty (capacity : ℕ) : LruCache κ ν := ⟨capacity, [], List.nodup_nil⟩

def size (c : LruCache κ ν) : ℕ := c.entries.length

/-- Drops the entry used least recently. -/
def evict (c : LruCache κ ν) : LruCache κ ν where
  capacity := c.capacity
  entries := c.entries.tail
  unique := ((c.entries.tail_sublist).map _).nodup c.unique

/-- Keeps the entries that pass the test. -/
def filter (p : κ × ν → Bool) (c : LruCache κ ν) : LruCache κ ν where
  capacity := c.capacity
  entries := c.entries.filter p
  unique := (List.filter_sublist.map _).nodup c.unique

variable [DecidableEq κ] {c : LruCache κ ν} {f g : κ → Option ν} {k : κ} {v : ν} {e : κ × ν}

def erase (k : κ) (c : LruCache κ ν) : LruCache κ ν := c.filter fun e => e.1 ≠ k

theorem mem_erase : e ∈ (c.erase k).entries ↔ e ∈ c.entries ∧ e.1 ≠ k := by simp [erase, filter]

/-- The entry of the key, used now. -/
def use (k : κ) (v : ν) (c : LruCache κ ν) : LruCache κ ν where
  capacity := c.capacity
  entries := (c.erase k).entries ++ [(k, v)]
  unique := by
    rw [List.map_append]
    refine List.nodup_append.2 ⟨(c.erase k).unique, List.nodup_singleton _, fun j hj i hi => ?_⟩
    obtain ⟨e, he, rfl⟩ := List.mem_map.1 hj
    rw [List.mem_singleton.1 hi]
    exact (mem_erase.1 he).2

def lookup (k : κ) (c : LruCache κ ν) : Option ν := (c.entries.find? fun e => e.1 = k).map Prod.snd

/-- A hit counts as a use. -/
def find (k : κ) (c : LruCache κ ν) : LruCache κ ν × Option ν :=
  match c.lookup k with
  | none => (c, none)
  | some v => (c.use k v, some v)

/-- An entry that is there stays as it is, but counts as used. -/
def insert (k : κ) (v : ν) (c : LruCache κ ν) : LruCache κ ν :=
  match c.lookup k with
  | some old => c.use k old
  | none => (if c.capacity ≤ c.size then c.evict else c).use k v

theorem mem_use : e ∈ (c.use k v).entries ↔ (e ∈ c.entries ∧ e.1 ≠ k) ∨ e = (k, v) := by
  simp [use, mem_erase]

theorem mem_of_lookup (h : c.lookup k = some v) : (k, v) ∈ c.entries := by
  obtain ⟨⟨j, w⟩, hf, rfl⟩ := Option.map_eq_some_iff.1 h
  have hj : j = k := by simpa using List.find?_some hf
  rw [← hj]
  exact List.mem_of_find?_eq_some hf

theorem lookup_of_mem (h : (k, v) ∈ c.entries) : c.lookup k = some v := by
  unfold lookup
  cases hf : c.entries.find? fun e => e.1 = k with
  | none => exact absurd (List.find?_eq_none.1 hf _ h) (by simp)
  | some e =>
    have hk : e.1 = k := by simpa using List.find?_some hf
    rw [List.inj_on_of_nodup_map c.unique (List.mem_of_find?_eq_some hf) h hk]
    rfl

theorem lookup_of_notMem (h : ∀ v, (k, v) ∉ c.entries) : c.lookup k = none := by
  cases hl : c.lookup k with
  | none => rfl
  | some v => exact absurd (mem_of_lookup hl) (h v)

/-- Without its entry the other entries stay as they are. -/
theorem entries_erase_of_notMem (h : ∀ v, (k, v) ∉ c.entries) : (c.erase k).entries = c.entries := by
  refine List.filter_eq_self.2 fun e he => decide_eq_true fun hk => h e.2 ?_
  rw [← hk]
  exact he

theorem find_of_mem (h : (k, v) ∈ c.entries) : c.find k = (c.use k v, some v) := by
  unfold find
  rw [lookup_of_mem h]

theorem insert_of_mem {old : ν} (h : (k, old) ∈ c.entries) : c.insert k v = c.use k old := by
  unfold insert
  rw [lookup_of_mem h]

/-- A new entry while there is room. -/
theorem entries_insert_of_room (h : ∀ v, (k, v) ∉ c.entries) (hroom : c.size < c.capacity) :
    (c.insert k v).entries = c.entries ++ [(k, v)] := by
  unfold insert
  rw [lookup_of_notMem h]
  simp only [if_neg (not_le.2 hroom), use, entries_erase_of_notMem h]

/-- A new entry takes the place of the one used least recently. -/
theorem entries_insert_of_full (h : ∀ v, (k, v) ∉ c.entries) (hfull : c.capacity ≤ c.size) :
    (c.insert k v).entries = c.entries.tail ++ [(k, v)] := by
  have htail : ∀ v, (k, v) ∉ c.evict.entries := fun v hv => h v (List.mem_of_mem_tail hv)
  unfold insert
  rw [lookup_of_notMem h]
  simp only [if_pos hfull, use, entries_erase_of_notMem htail]
  rfl

/-- Looking up invents no entries. -/
theorem mem_of_find (h : e ∈ (c.find k).1.entries) : e ∈ c.entries := by
  unfold find at h
  split at h
  · exact h
  · rename_i v hv
    rcases mem_use.1 h with ⟨he, -⟩ | rfl
    · exact he
    · exact mem_of_lookup hv

theorem mem_of_insert (h : e ∈ (c.insert k v).entries) : e ∈ c.entries ∨ e = (k, v) := by
  unfold insert at h
  split at h
  · rename_i old hold
    rcases mem_use.1 h with ⟨he, -⟩ | rfl
    · exact .inl he
    · exact .inl (mem_of_lookup hold)
  · rcases mem_use.1 h with ⟨he, -⟩ | he
    · refine .inl ?_
      split at he
      · exact List.mem_of_mem_tail he
      · exact he
    · exact .inr he

/-! ## Calls -/

inductive Call (κ ν : Type*)
  | insert (k : κ) (v : ν)
  | find (k : κ)
  | erase (k : κ)
  deriving Repr, DecidableEq

/-- The cache under calls in any order. -/
def calls : Machine (LruCache κ ν) (Call κ ν) where
  enabled _ _ := True
  step c
    | .insert k v => c.insert k v
    | .find k => (c.find k).1
    | .erase k => c.erase k

/-- What a call returns. -/
def returned (c : LruCache κ ν) : Call κ ν → List (Option ν)
  | .find k => [(c.find k).2]
  | .insert _ _ | .erase _ => []

/-- The key that a call uses: one that is inserted or found. -/
def used (c : LruCache κ ν) : Call κ ν → List κ
  | .insert k _ => [k]
  | .find k => if (c.find k).2.isSome then [k] else []
  | .erase _ => []

/-- When a key was last used; 0 if it never was. -/
def lastUse (uses : List κ) (k : κ) : ℕ := uses.length - uses.reverse.idxOf k

theorem lastUse_le (uses : List κ) (k : κ) : lastUse uses k ≤ uses.length := Nat.sub_le _ _

theorem lastUse_concat (uses : List κ) (j k : κ) :
    lastUse (uses ++ [j]) k = if k = j then uses.length + 1 else lastUse uses k := by
  unfold lastUse
  rw [List.reverse_append, List.length_append]
  simp only [List.reverse_cons, List.reverse_nil, List.nil_append, List.cons_append, List.length_cons,
    List.length_nil]
  split
  · rename_i h
    rw [h, List.idxOf_cons_self]
    omega
  · rename_i h
    rw [List.idxOf_cons_ne _ (Ne.symm h)]
    omega

/-- The entries are listed by their last use, and are not more than there is room for. -/
structure Recent (uses : List κ) (c : LruCache κ ν) : Prop where
  size : c.size ≤ c.capacity
  ordered : c.entries.Pairwise fun a b => lastUse uses a.1 < lastUse uses b.1

theorem recent_empty (capacity : ℕ) : Recent [] (empty capacity : LruCache κ ν) := ⟨Nat.zero_le _, .nil⟩

/-- Keeping some entries keeps their order. -/
theorem Recent.sublist {uses : List κ} (h : Recent uses c) {c' : LruCache κ ν} (hcap : c'.capacity = c.capacity)
    (hsub : c'.entries.Sublist c.entries) : Recent uses c' where
  size := by
    rw [hcap]
    exact hsub.length_le.trans h.size
  ordered := h.ordered.sublist hsub

theorem Recent.erase {uses : List κ} (h : Recent uses c) (k : κ) : Recent uses (c.erase k) :=
  h.sublist rfl List.filter_sublist

/-- The entry used now is listed last. -/
theorem Recent.use {uses : List κ} (h : Recent uses c) (hroom : (c.erase k).size + 1 ≤ c.capacity) (v : ν) :
    Recent (uses ++ [k]) (c.use k v) where
  size := by
    simp only [LruCache.size, LruCache.use, List.length_append] at hroom ⊢
    exact hroom
  ordered := by
    have hold : ∀ e ∈ (c.erase k).entries, lastUse (uses ++ [k]) e.1 = lastUse uses e.1 := fun e he => by
      rw [lastUse_concat, if_neg (mem_erase.1 he).2]
    refine List.pairwise_append.2 ⟨?_, List.pairwise_singleton _ _, fun a ha b hb => ?_⟩
    · exact (h.erase k).ordered.imp_of_mem fun {a b} ha hb hlt => by
        rw [hold a ha, hold b hb]
        exact hlt
    · rw [List.mem_singleton.1 hb, hold a ha, lastUse_concat, if_pos rfl]
      exact Nat.lt_succ_of_le (lastUse_le uses a.1)

theorem size_erase_lt (h : c.lookup k = some v) : (c.erase k).size < c.size := by
  have hmem := mem_of_lookup h
  refine lt_of_le_of_ne (List.length_filter_le _ _) fun heq => ?_
  have hall := List.length_filter_eq_length_iff.1 heq (k, v) hmem
  simp at hall

theorem capacity_find (c : LruCache κ ν) (k : κ) : (c.find k).1.capacity = c.capacity := by
  unfold find
  split <;> rfl

theorem capacity_insert (c : LruCache κ ν) (k : κ) (v : ν) : (c.insert k v).capacity = c.capacity := by
  unfold insert
  split
  · rfl
  · split <;> rfl

/-- The invariant of every call. -/
theorem Recent.step {uses : List κ} (h : Recent uses c) (hcap : 1 ≤ c.capacity) (call : Call κ ν) :
    Recent (uses ++ c.used call) (calls.step c call) := by
  have hsize := h.size
  cases call with
  | insert k v =>
    change Recent (uses ++ [k]) (c.insert k v)
    unfold LruCache.insert
    split
    · rename_i old hold
      have hlt := size_erase_lt hold
      exact h.use (by omega) old
    · split
      · rename_i hfull
        have htail : Recent uses c.evict := h.sublist rfl (List.tail_sublist _)
        have hle : (c.evict.erase k).size ≤ c.evict.size := List.length_filter_le _ _
        have hlength : c.evict.size = c.size - 1 := List.length_tail
        exact htail.use (by change _ ≤ c.capacity; omega) v
      · rename_i hroom
        have hle : (c.erase k).size ≤ c.size := List.length_filter_le _ _
        exact h.use (by omega) v
  | find k =>
    change Recent (uses ++ if (c.find k).2.isSome then [k] else []) (c.find k).1
    unfold LruCache.find
    split
    · rw [if_neg (by simp), List.append_nil]
      exact h
    · rename_i v hv
      have hlt := size_erase_lt hv
      exact h.use (by omega) v
  | erase k =>
    change Recent (uses ++ []) (c.erase k)
    rw [List.append_nil]
    exact h.erase k

theorem capacity_step (c : LruCache κ ν) (call : Call κ ν) : (calls.step c call).capacity = c.capacity := by
  cases call with
  | insert k v => exact capacity_insert c k v
  | find k => exact capacity_find c k
  | erase k => rfl

theorem runs_calls (c : LruCache κ ν) (cs : List (Call κ ν)) : calls.Runs c cs :=
  Machine.runs_of_enabled (fun _ _ => trivial) c cs

theorem capacity_exec (capacity : ℕ) (cs : List (Call κ ν)) :
    (calls.exec (empty capacity) cs).capacity = capacity := by
  refine Machine.always_last _ _ (Machine.always_of_step (I := fun c => c.capacity = capacity)
    (fun c call hc _ => ?_) rfl (runs_calls (empty capacity) cs))
  rw [capacity_step, hc]

/-- Whatever the calls were, the entries are listed by their last use. -/
theorem recent_exec {capacity : ℕ} (hcap : 1 ≤ capacity) (cs : List (Call κ ν)) :
    Recent (calls.log used (empty capacity) cs) (calls.exec (empty capacity : LruCache κ ν) cs) := by
  have hstep : ∀ (c : LruCache κ ν) uses (call : Call κ ν), c.capacity = capacity ∧ Recent uses c →
      calls.enabled c call →
      (calls.step c call).capacity = capacity ∧ Recent (uses ++ used c call) (calls.step c call) := by
    rintro c uses call ⟨rfl, hrecent⟩ -
    exact ⟨capacity_step c call, hrecent.step hcap call⟩
  have hinv := Machine.exec_log_inv (I := fun c uses => c.capacity = capacity ∧ Recent uses c) hstep
    ⟨rfl, recent_empty capacity⟩ (runs_calls (empty capacity) cs)
  exact hinv.2

/-! ## The store behind the cache -/

/-- What the cache holds is what the store gives. -/
def Reflects (f : κ → Option ν) (c : LruCache κ ν) : Prop := ∀ e ∈ c.entries, f e.1 = some e.2

omit [DecidableEq κ] in
theorem reflects_empty (capacity : ℕ) : Reflects f (empty capacity) := fun e he => by cases he

omit [DecidableEq κ] in
theorem Reflects.filter (h : Reflects f c) (p : κ × ν → Bool) : Reflects f (c.filter p) :=
  fun e he => h e (List.mem_filter.1 he).1

theorem Reflects.find (h : Reflects f c) (k : κ) : Reflects f (c.find k).1 := fun e he => h e (mem_of_find he)

theorem Reflects.insert (h : Reflects f c) (hk : f k = some v) : Reflects f (c.insert k v) := by
  intro e he
  rcases mem_of_insert he with he | rfl
  · exact h e he
  · exact hk

/-- A hit gives what the store would give. -/
theorem Reflects.eq_of_find (h : Reflects f c) (hf : (c.find k).2 = some v) : f k = some v := by
  unfold LruCache.find at hf
  split at hf
  · cases hf
  · rename_i w hw
    cases hf
    exact h (k, v) (mem_of_lookup hw)

/-- The store loses or changes some of its values, whose keys are erased one after the other. -/
theorem Reflects.foldl_erase (h : Reflects f c) :
    ∀ ks : List κ, (∀ j v, f j = some v → j ∉ ks → g j = some v) →
      Reflects g (ks.foldl (fun c k => c.erase k) c) := by
  intro ks
  induction ks generalizing c f with
  | nil => exact fun hg e he => hg e.1 e.2 (h e he) List.not_mem_nil
  | cons k ks ih =>
    intro hg
    have herase : Reflects (fun j => if j = k then none else f j) (c.erase k) := by
      intro e he
      obtain ⟨he, hne⟩ := mem_erase.1 he
      exact (if_neg hne).trans (h e he)
    refine ih herase fun j v hj hno => ?_
    split at hj
    · cases hj
    · rename_i hne
      exact hg j v hj fun hmem => (List.mem_cons.1 hmem).elim hne hno

end LruCache
