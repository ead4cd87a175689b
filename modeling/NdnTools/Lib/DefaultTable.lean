/-
Tables of named rows, each in a scope, with a default flag: names are unique, a row inserted into a
scope without a default row becomes its default, and making a row the default takes the flag from the
others of its scope. `Valid` is what the operations keep, and `Changed` says which rows two tables
differ in.
-/
import Mathlib.Data.List.Nodup
import Mathlib.Tactic

structure DefaultTable.Row (σ ν δ : Type*) where
  id : ℕ
  scope : σ
  name : ν
  data : δ
  isDefault : Bool
  deriving Repr, DecidableEq

abbrev DefaultTable (σ ν δ : Type*) := List (DefaultTable.Row σ ν δ)

namespace DefaultTable

variable {σ ν δ : Type*} {t t' t'' : DefaultTable σ ν δ} {r q : Row σ ν δ} {name : ν} {scope : σ} {data : δ}

/-! ## Rows -/

/-- Ids and names are unique, and so is the default of a scope. -/
structure Valid (t : DefaultTable σ ν δ) : Prop where
  ids : (t.map Row.id).Nodup
  names : (t.map Row.name).Nodup
  defaults : ∀ r ∈ t, ∀ q ∈ t, r.isDefault = true → q.isDefault = true → r.scope = q.scope → r = q

theorem Valid.eq_of_name (h : Valid t) (hr : r ∈ t) (hq : q ∈ t) (hn : r.name = q.name) : r = q :=
  List.inj_on_of_nodup_map h.names hr hq hn

theorem Valid.eq_of_id (h : Valid t) (hr : r ∈ t) (hq : q ∈ t) (hn : r.id = q.id) : r = q :=
  List.inj_on_of_nodup_map h.ids hr hq hn

theorem valid_nil : Valid ([] : DefaultTable σ ν δ) := ⟨List.nodup_nil, List.nodup_nil, fun r hr => by cases hr⟩

theorem Valid.sublist (h : Valid t) (hs : t'.Sublist t) : Valid t' where
  ids := (hs.map _).nodup h.ids
  names := (hs.map _).nodup h.names
  defaults r hr q hq := h.defaults r (hs.subset hr) q (hs.subset hq)

/-- The rows that pass a test have different ids. -/
theorem Valid.pairwise_id (h : Valid t) (p : Row σ ν δ → Bool) : (t.filter p).Pairwise fun r q => r.id ≠ q.id :=
  (List.pairwise_map.1 h.ids).sublist List.filter_sublist

/-- The id of the next row. -/
def nextId (t : DefaultTable σ ν δ) : ℕ := (t.map Row.id).foldr max 0 + 1

theorem lt_nextId (h : r ∈ t) : r.id < t.nextId := by
  have hle : ∀ (l : List ℕ) (a : ℕ), a ∈ l → a ≤ l.foldr max 0 := by
    intro l a ha
    induction l with
    | nil => cases ha
    | cons b l ih =>
      rcases List.mem_cons.1 ha with rfl | ha
      · exact le_max_left _ _
      · exact (ih ha).trans (le_max_right _ _)
  exact Nat.lt_succ_of_le (hle _ _ (List.mem_map_of_mem h))

/-- A row has the name. -/
def Has (name : ν) (t : DefaultTable σ ν δ) : Prop := ∃ r ∈ t, r.name = name

/-- Every row of the name is a default. -/
def IsDefault (name : ν) (t : DefaultTable σ ν δ) : Prop := ∀ r ∈ t, r.name = name → r.isDefault = true

/-- The row is in one of the two tables only: it was inserted or deleted, or is one with its flag
changed. -/
def Changed (t t' : DefaultTable σ ν δ) (r : Row σ ν δ) : Prop := (r ∈ t ∧ r ∉ t') ∨ (r ∉ t ∧ r ∈ t')

theorem not_changed_refl : ¬ Changed t t r := by
  rintro (⟨h, h'⟩ | ⟨h', h⟩)
  · exact h' h
  · exact h' h

theorem Changed.split (h : Changed t t'' r) : Changed t t' r ∨ Changed t' t'' r := by
  by_cases hr : r ∈ t'
  · rcases h with ⟨-, h⟩ | ⟨h, -⟩
    · exact .inr (.inl ⟨hr, h⟩)
    · exact .inl (.inr ⟨h, hr⟩)
  · rcases h with ⟨h, -⟩ | ⟨-, h⟩
    · exact .inl (.inl ⟨h, hr⟩)
    · exact .inr (.inr ⟨hr, h⟩)

/-- A name that only the second table has is that of a changed row. -/
theorem changed_of_has (h : Has name t') (hn : ¬ Has name t) : ∃ r, Changed t t' r ∧ r.name = name := by
  obtain ⟨r, hr, hrn⟩ := h
  exact ⟨r, .inr ⟨fun hr' => hn ⟨r, hr', hrn⟩, hr⟩, hrn⟩

/-- A row that loses its place as a nondefault row is changed. -/
theorem changed_of_isDefault (h : IsDefault name t') (hn : ¬ IsDefault name t) :
    ∃ r, Changed t t' r ∧ r.name = name := by
  simp only [IsDefault, not_forall] at hn
  obtain ⟨r, hr, hrn, hd⟩ := hn
  exact ⟨r, .inl ⟨hr, fun hr' => hd (h r hr' hrn)⟩, hrn⟩

/-! ## Deletion -/

def deleteWhere (p : Row σ ν δ → Bool) (t : DefaultTable σ ν δ) : DefaultTable σ ν δ := t.filter fun r => !p r

theorem mem_deleteWhere {p : Row σ ν δ → Bool} : r ∈ deleteWhere p t ↔ r ∈ t ∧ p r = false := by
  simp [deleteWhere]

theorem Valid.deleteWhere (h : Valid t) (p : Row σ ν δ → Bool) :
    Valid (t.deleteWhere p) := h.sublist List.filter_sublist

/-- What is deleted is changed, and nothing else. -/
theorem changed_deleteWhere {p : Row σ ν δ → Bool} : Changed t (deleteWhere p t) r ↔ r ∈ t ∧ p r = true := by
  unfold Changed
  simp only [mem_deleteWhere]
  cases hp : p r <;> simp

/-! ## New flags -/

/-- The same rows with the flags `g` gives them. -/
def reflag (g : Row σ ν δ → Bool) (t : DefaultTable σ ν δ) : DefaultTable σ ν δ :=
  t.map fun q => { q with isDefault := g q }

theorem mem_reflag {g : Row σ ν δ → Bool} : r ∈ reflag g t ↔ ∃ q ∈ t, { q with isDefault := g q } = r := List.mem_map

theorem has_reflag {g : Row σ ν δ → Bool} : Has name (reflag g t) ↔ Has name t := by
  constructor
  · rintro ⟨r, hr, hn⟩
    obtain ⟨q, hq, rfl⟩ := mem_reflag.1 hr
    exact ⟨q, hq, hn⟩
  · rintro ⟨q, hq, hn⟩
    exact ⟨_, mem_reflag.2 ⟨q, hq, rfl⟩, hn⟩

theorem Valid.reflag {g : Row σ ν δ → Bool} (h : Valid t)
    (hg : ∀ r ∈ t, ∀ q ∈ t, g r = true → g q = true → r.scope = q.scope → r = q) : Valid (t.reflag g) where
  ids := by unfold DefaultTable.reflag; rw [List.map_map]; exact h.ids
  names := by unfold DefaultTable.reflag; rw [List.map_map]; exact h.names
  defaults r hr q hq hrd hqd hs := by
    obtain ⟨r, hr', rfl⟩ := mem_reflag.1 hr
    obtain ⟨q, hq', rfl⟩ := mem_reflag.1 hq
    rw [hg r hr' q hq' hrd hqd hs]

theorem reflag_eq_self {g : Row σ ν δ → Bool} (h : ∀ q ∈ t, g q = q.isDefault) : reflag g t = t := by
  refine (List.map_congr_left fun q hq => ?_).trans (List.map_id t)
  rw [h q hq]; rfl

/-- The rows with another flag are changed. -/
theorem changed_reflag {g : Row σ ν δ → Bool} (h : Changed t (reflag g t) r) :
    ∃ q ∈ t, g q ≠ q.isDefault ∧ q.scope = r.scope ∧ q.name = r.name ∧ q.data = r.data := by
  rcases h with ⟨hr, hno⟩ | ⟨hno, hr⟩
  · refine ⟨r, hr, fun he => hno (mem_reflag.2 ⟨r, hr, ?_⟩), rfl, rfl, rfl⟩
    rw [he]
  · obtain ⟨q, hq, rfl⟩ := mem_reflag.1 hr
    refine ⟨q, hq, fun he => hno ?_, rfl, rfl, rfl⟩
    rw [he]; exact hq

/-! ## A new row -/

/-- A new row, not the default. -/
def fresh (scope : σ) (name : ν) (data : δ) (t : DefaultTable σ ν δ) :
    Row σ ν δ := ⟨t.nextId, scope, name, data, false⟩

theorem valid_append (h : Valid t) (hn : ¬ t.Has name) : Valid (t ++ [fresh scope name data t]) where
  ids := by
    rw [List.map_append]
    refine List.nodup_append.2 ⟨h.ids, List.nodup_singleton _, fun a ha b hb => ?_⟩
    obtain ⟨r, hr, rfl⟩ := List.mem_map.1 ha
    rw [List.mem_singleton.1 hb]
    exact Nat.ne_of_lt (lt_nextId hr)
  names := by
    rw [List.map_append]
    refine List.nodup_append.2 ⟨h.names, List.nodup_singleton _, fun a ha b hb => ?_⟩
    obtain ⟨r, hr, rfl⟩ := List.mem_map.1 ha
    rw [List.mem_singleton.1 hb]
    exact fun he => hn ⟨r, hr, he⟩
  defaults r hr q hq hrd hqd hs := by
    -- the new row has no flag, so both are old
    have hold : ∀ p ∈ t ++ [fresh scope name data t], p.isDefault = true → p ∈ t := fun p hp hd =>
      (List.mem_append.1 hp).resolve_right fun hp => by rw [List.mem_singleton.1 hp] at hd; cases hd
    exact h.defaults r (hold r hr hrd) q (hold q hq hqd) hrd hqd hs

/-- The scope has a default row. -/
def HasDefault (scope : σ) (t : DefaultTable σ ν δ) : Prop := ∃ r ∈ t, r.scope = scope ∧ r.isDefault = true

theorem hasDefault_append_fresh {s : σ} :
    HasDefault s (t ++ [fresh scope name data t]) ↔ HasDefault s t := by
  constructor
  · rintro ⟨r, hr, hs, hd⟩
    rcases List.mem_append.1 hr with hr | hr
    · exact ⟨r, hr, hs, hd⟩
    · rw [List.mem_singleton.1 hr] at hd
      cases hd
  · rintro ⟨r, hr, hs, hd⟩
    exact ⟨r, List.mem_append_left _ hr, hs, hd⟩

section
variable [DecidableEq ν]

instance (name : ν) (t : DefaultTable σ ν δ) : Decidable (Has name t) := inferInstanceAs (Decidable (∃ r ∈ t, _))

/-- The row of the name. -/
def row (name : ν) (t : DefaultTable σ ν δ) : Option (Row σ ν δ) := t.find? fun r => r.name = name

theorem row_eq_none (h : ¬ t.Has name) : t.row name = none := by
  unfold row
  rw [List.find?_eq_none]
  exact fun r hr hn => h ⟨r, hr, by simpa using hn⟩

theorem mem_of_row (h : t.row name = some r) : r ∈ t ∧ r.name = name :=
  ⟨List.mem_of_find?_eq_some h, by simpa using List.find?_some h⟩

theorem row_of_has (h : t.Has name) : ∃ r ∈ t, t.row name = some r ∧ r.name = name := by
  cases hr : t.row name with
  | none =>
    obtain ⟨r, hm, hn⟩ := h
    exact absurd (by simpa using hn) (List.find?_eq_none.1 hr r hm)
  | some r => exact ⟨r, (mem_of_row hr).1, rfl, (mem_of_row hr).2⟩

theorem Valid.row_of_mem (h : Valid t) (hr : r ∈ t) : t.row r.name = some r := by
  obtain ⟨q, hq, heq, hn⟩ := row_of_has ⟨r, hr, rfl⟩
  rw [heq, h.eq_of_name hq hr hn]

end

variable [DecidableEq σ] [DecidableEq ν]

/-! ## Setting the default -/

def clearDefaults (scope : σ) (t : DefaultTable σ ν δ) : DefaultTable σ ν δ :=
  t.map fun r => if r.scope = scope then { r with isDefault := false } else r

def markDefault (name : ν) (t : DefaultTable σ ν δ) : DefaultTable σ ν δ :=
  t.map fun r => if r.name = name then { r with isDefault := true } else r

/-- Makes the row of the name the default of its scope, unless it is. -/
def setDefault (name : ν) (t : DefaultTable σ ν δ) : DefaultTable σ ν δ :=
  match t.row name with
  | none => t
  | some r => if r.isDefault then t else markDefault name (clearDefaults r.scope t)

/-- The flag of a row once `r` is the default of its scope. -/
def flagFor (r q : Row σ ν δ) : Bool := if q.scope = r.scope then decide (q.name = r.name) else q.isDefault

theorem setDefault_of_missing (h : ¬ t.Has name) : setDefault name t = t := by
  unfold setDefault; rw [row_eq_none h]

theorem flagFor_self (r : Row σ ν δ) : flagFor r r = true := by simp [flagFor]

/-- For the only default of the scope nothing changes. -/
theorem flagFor_of_default (h : Valid t) (hr : r ∈ t) (hd : r.isDefault = true) (hq : q ∈ t) :
    flagFor r q = q.isDefault := by
  unfold flagFor
  split
  · rename_i hs
    by_cases hn : q.name = r.name
    · rw [h.eq_of_name hq hr hn, hd]; simp
    · rw [decide_eq_false hn]
      by_contra hq'
      exact hn (congrArg Row.name (h.defaults q hq r hr (by simpa using Ne.symm hq') hd hs))
  · rfl

/-- The flag goes to the row from the others of its scope. -/
theorem setDefault_of_mem (h : Valid t) (hr : r ∈ t) : setDefault r.name t = reflag (flagFor r) t := by
  unfold setDefault
  rw [h.row_of_mem hr]
  by_cases hd : r.isDefault = true
  · exact (if_pos hd).trans (reflag_eq_self fun q hq => flagFor_of_default h hr hd hq).symm
  · refine (if_neg hd).trans ?_
    unfold markDefault clearDefaults reflag
    rw [List.map_map]
    refine List.map_congr_left fun q hq => ?_
    simp only [Function.comp, flagFor]
    by_cases hs : q.scope = r.scope
    · by_cases hn : q.name = r.name <;> simp [hs, hn]
    · have hn : q.name ≠ r.name := fun hn => hs (by rw [h.eq_of_name hq hr hn])
      simp [hs, hn]

theorem setDefault_of_default (h : Valid t) (hr : r ∈ t) (hd : r.isDefault = true) : setDefault r.name t = t := by
  unfold setDefault
  rw [h.row_of_mem hr]
  exact if_pos hd

/-- Nothing changes if every row of the name is the default already. -/
theorem setDefault_eq_self (h : Valid t) (hd : IsDefault name t) : setDefault name t = t := by
  by_cases hn : t.Has name
  · obtain ⟨r, hr, rfl⟩ := hn
    exact setDefault_of_default h hr (hd r hr rfl)
  · exact setDefault_of_missing hn

/-- Nothing happens, or a row becomes the default of its scope. -/
theorem setDefault_cases (h : Valid t) (name : ν) :
    (¬ t.Has name ∧ setDefault name t = t) ∨ ∃ r ∈ t, r.name = name ∧ setDefault name t = reflag (flagFor r) t := by
  by_cases hn : t.Has name
  · obtain ⟨r, hr, rfl⟩ := hn
    exact .inr ⟨r, hr, rfl, setDefault_of_mem h hr⟩
  · exact .inl ⟨hn, setDefault_of_missing hn⟩

theorem Valid.setDefault (h : Valid t) (name : ν) : Valid (t.setDefault name) := by
  rcases setDefault_cases h name with ⟨-, heq⟩ | ⟨r, hr, -, heq⟩
  · rw [heq]; exact h
  · rw [heq]
    refine h.reflag fun p hp q hq hpd hqd hs => ?_
    unfold flagFor at hpd hqd
    by_cases hps : p.scope = r.scope
    · rw [if_pos hps] at hpd
      rw [if_pos (hs ▸ hps)] at hqd
      exact h.eq_of_name hp hq ((of_decide_eq_true hpd).trans (of_decide_eq_true hqd).symm)
    · rw [if_neg hps] at hpd
      rw [if_neg fun hqs => hps (hs.trans hqs)] at hqd
      exact h.defaults p hp q hq hpd hqd hs

/-- The rows of a table after `setDefault`, up to their flags. -/
theorem mem_setDefault (h : Valid t) (hq : q ∈ setDefault name t) :
    ∃ r ∈ t, r.id = q.id ∧ r.scope = q.scope ∧ r.name = q.name ∧ r.data = q.data := by
  rcases setDefault_cases h name with ⟨-, heq⟩ | ⟨r, -, -, heq⟩
  · rw [heq] at hq; exact ⟨q, hq, rfl, rfl, rfl, rfl⟩
  · rw [heq] at hq
    obtain ⟨p, hp, rfl⟩ := mem_reflag.1 hq
    exact ⟨p, hp, rfl, rfl, rfl, rfl⟩

theorem mem_setDefault_of_mem (h : Valid t) (hr : r ∈ t) (name : ν) :
    ∃ q ∈ setDefault name t, r.id = q.id ∧ r.scope = q.scope ∧ r.name = q.name ∧ r.data = q.data := by
  rcases setDefault_cases h name with ⟨-, heq⟩ | ⟨p, -, -, heq⟩
  · rw [heq]; exact ⟨r, hr, rfl, rfl, rfl, rfl⟩
  · rw [heq]; exact ⟨_, mem_reflag.2 ⟨r, hr, rfl⟩, rfl, rfl, rfl, rfl⟩

theorem map_data_setDefault (h : Valid t) (name : ν) :
    (setDefault name t).map (fun r => r.data) = t.map fun r => r.data := by
  rcases setDefault_cases h name with ⟨-, heq⟩ | ⟨r, -, -, heq⟩
  · rw [heq]
  · rw [heq]
    unfold reflag
    rw [List.map_map]
    rfl

theorem has_setDefault (h : Valid t) (n : ν) : Has name (setDefault n t) ↔ Has name t := by
  rcases setDefault_cases h n with ⟨-, heq⟩ | ⟨r, -, -, heq⟩
  · rw [heq]
  · rw [heq, has_reflag]

/-- The row of the name is the default now. -/
theorem isDefault_setDefault (h : Valid t) (name : ν) : IsDefault name (setDefault name t) := by
  intro q hq hn
  rcases setDefault_cases h name with ⟨hno, heq⟩ | ⟨r, hr, hrn, heq⟩
  · rw [heq] at hq; exact absurd ⟨q, hq, hn⟩ hno
  · rw [heq] at hq
    obtain ⟨p, hp, rfl⟩ := mem_reflag.1 hq
    rw [h.eq_of_name hp hr (hn.trans hrn.symm)]
    exact flagFor_self r

/-- A changed row is in the scope of the new default: it is that, or it was the default before. -/
theorem changed_setDefault (h : Valid t) (hc : Changed t (setDefault name t) q) :
    ∃ r ∈ t, r.name = name ∧ ∃ p ∈ t, p.scope = r.scope ∧ p.name = q.name ∧ p.data = q.data ∧
      (p = r ∨ p.isDefault = true) := by
  rcases setDefault_cases h name with ⟨-, heq⟩ | ⟨r, hr, hn, heq⟩
  · rw [heq] at hc; exact absurd hc not_changed_refl
  · rw [heq] at hc
    obtain ⟨p, hp, hflag, -, hpn, hpd⟩ := changed_reflag hc
    unfold flagFor at hflag
    split at hflag
    · rename_i hs
      refine ⟨r, hr, hn, p, hp, hs, hpn, hpd, ?_⟩
      by_cases hname : p.name = r.name
      · exact .inl (h.eq_of_name hp hr hname)
      · rw [decide_eq_false hname] at hflag
        exact .inr (by simpa using Ne.symm hflag)
    · exact absurd rfl hflag

/-! ## Insertion -/

instance (scope : σ) (t : DefaultTable σ ν δ) : Decidable (HasDefault scope t) :=
  inferInstanceAs (Decidable (∃ r ∈ t, _))

/-- Inserts a row unless the name is taken; it becomes the default of a scope that has none. -/
def insertRow (scope : σ) (name : ν) (data : δ) (t : DefaultTable σ ν δ) : DefaultTable σ ν δ :=
  if t.Has name then t
  else if HasDefault scope (t ++ [fresh scope name data t]) then t ++ [fresh scope name data t]
  else setDefault name (t ++ [fresh scope name data t])

theorem insertRow_of_has (h : t.Has name) : insertRow scope name data t = t := if_pos h

/-- What an insertion does: the new row is appended, with the flag if its scope had no default. -/
theorem insertRow_eq (h : Valid t) (hn : ¬ t.Has name) (scope : σ) (data : δ) :
    insertRow scope name data t =
      t ++ [{ fresh scope name data t with isDefault := decide ¬ HasDefault scope t }] := by
  unfold insertRow
  rw [if_neg hn]
  by_cases hd : HasDefault scope t
  · rw [if_pos (hasDefault_append_fresh.2 hd), decide_eq_false (not_not.2 hd)]
    rfl
  · rw [if_neg (mt hasDefault_append_fresh.1 hd), decide_eq_true hd]
    have hmem : fresh scope name data t ∈ t ++ [fresh scope name data t] :=
      List.mem_append_right _ (List.mem_singleton_self _)
    refine (setDefault_of_mem (valid_append h hn) hmem).trans ?_
    unfold reflag
    rw [List.map_append]
    congr 1
    · -- no row of the scope had the flag
      refine reflag_eq_self fun q hq => ?_
      unfold flagFor
      split
      · rename_i hs
        have hne : ¬ q.name = (fresh scope name data t).name := fun he => hn ⟨q, hq, he⟩
        rw [decide_eq_false hne]
        by_contra hq'
        exact hd ⟨q, hq, hs, by simpa using Ne.symm hq'⟩
      · rfl
    · rw [List.map_singleton, flagFor_self]

theorem insertRow_of_new (h : Valid t) (hn : ¬ t.Has name) (scope : σ) (data : δ) :
    ∃ flag, insertRow scope name data t = t ++ [{ fresh scope name data t with isDefault := flag }] :=
  ⟨_, insertRow_eq h hn scope data⟩

/-- Where there is a default, an insertion makes no other. -/
theorem mem_insertRow_of_default (h : Valid t) (hd : HasDefault scope t) (hr : r ∈ insertRow scope name data t)
    (hrd : r.isDefault = true) : r ∈ t := by
  by_cases hn : t.Has name
  · rw [insertRow_of_has hn] at hr
    exact hr
  · rw [insertRow_eq h hn, decide_eq_false (not_not.2 hd)] at hr
    rcases List.mem_append.1 hr with hr | hr
    · exact hr
    · rw [List.mem_singleton.1 hr] at hrd
      cases hrd

theorem Valid.insertRow (h : Valid t) : Valid (t.insertRow scope name data) := by
  by_cases hn : t.Has name
  · rw [insertRow_of_has hn]; exact h
  · unfold DefaultTable.insertRow
    rw [if_neg hn]
    split
    · exact valid_append h hn
    · exact (valid_append h hn).setDefault name

theorem mem_insertRow (h : Valid t) (hr : r ∈ insertRow scope name data t) :
    r ∈ t ∨ (¬ t.Has name ∧ r.scope = scope ∧ r.name = name ∧ r.data = data) := by
  by_cases hn : t.Has name
  · rw [insertRow_of_has hn] at hr; exact .inl hr
  · obtain ⟨flag, heq⟩ := insertRow_of_new h hn scope data
    rw [heq] at hr
    rcases List.mem_append.1 hr with hr | hr
    · exact .inl hr
    · rw [List.mem_singleton.1 hr]
      exact .inr ⟨hn, rfl, rfl, rfl⟩

theorem mem_insertRow_of_mem (h : Valid t) (hr : r ∈ t) : r ∈ insertRow scope name data t := by
  by_cases hn : t.Has name
  · rw [insertRow_of_has hn]; exact hr
  · obtain ⟨flag, heq⟩ := insertRow_of_new h hn scope data
    rw [heq]; exact List.mem_append_left _ hr

theorem has_insertRow (h : Valid t) : Has name (insertRow scope name data t) := by
  by_cases hn : t.Has name
  · rw [insertRow_of_has hn]; exact hn
  · obtain ⟨flag, heq⟩ := insertRow_of_new h hn scope data
    rw [heq]; exact ⟨_, List.mem_append_right _ (List.mem_singleton_self _), rfl⟩

/-- The inserted row is changed, and nothing else. -/
theorem changed_insertRow (h : Valid t) (hc : Changed t (insertRow scope name data t) r) :
    ¬ t.Has name ∧ r.scope = scope ∧ r.name = name ∧ r.data = data := by
  rcases hc with ⟨hr, hno⟩ | ⟨hno, hr⟩
  · exact absurd (mem_insertRow_of_mem h hr) hno
  · exact (mem_insertRow h hr).resolve_left hno

/-! ## The data of a name -/

omit [DecidableEq σ] in
theorem Valid.data_row (h : Valid t) :
    (t.row name).map Row.data = some data ↔ ∃ r ∈ t, r.name = name ∧ r.data = data := by
  rw [Option.map_eq_some_iff]
  constructor
  · rintro ⟨r, hr, hd⟩
    exact ⟨r, (mem_of_row hr).1, (mem_of_row hr).2, hd⟩
  · rintro ⟨r, hr, rfl, hd⟩
    exact ⟨r, h.row_of_mem hr, hd⟩

omit [DecidableEq σ] in
/-- Tables with the same data under every name of the one. -/
theorem data_row_congr (h : Valid t) (h' : Valid t') (hr : ∀ r ∈ t, ∃ q ∈ t', q.name = r.name ∧ q.data = r.data)
    (hn : Has name t' → Has name t) : (t'.row name).map Row.data = (t.row name).map Row.data := by
  by_cases hhas : Has name t
  · obtain ⟨r, hm, rfl⟩ := hhas
    obtain ⟨q, hq, hqn, hqd⟩ := hr r hm
    rw [h.row_of_mem hm, h'.data_row.2 ⟨q, hq, hqn, hqd⟩]
    rfl
  · rw [row_eq_none hhas, row_eq_none (mt hn hhas)]

theorem data_setDefault (h : Valid t) (n : ν) :
    ((setDefault n t).row name).map Row.data = (t.row name).map Row.data := by
  refine data_row_congr h (h.setDefault n) (fun r hr => ?_) (has_setDefault h n).1
  obtain ⟨q, hq, -, -, hn, hd⟩ := mem_setDefault_of_mem h hr n
  exact ⟨q, hq, hn.symm, hd.symm⟩

/-- The data of a name that is taken stays. -/
theorem data_insertRow (h : Valid t) :
    ((insertRow scope name data t).row name).map Row.data = some (((t.row name).map Row.data).getD data) := by
  by_cases hn : t.Has name
  · obtain ⟨r, -, hr, -⟩ := row_of_has hn
    rw [insertRow_of_has hn, hr]
    rfl
  · obtain ⟨flag, heq⟩ := insertRow_of_new h hn scope data
    rw [row_eq_none hn]
    refine h.insertRow.data_row.2 ⟨{ fresh scope name data t with isDefault := flag }, ?_, rfl, rfl⟩
    rw [heq]
    exact List.mem_append_right _ (List.mem_singleton_self _)

/-- And so does that of any other name. -/
theorem data_insertRow_of_ne (h : Valid t) {n : ν} (hne : n ≠ name) :
    ((insertRow scope name data t).row n).map Row.data = (t.row n).map Row.data := by
  refine data_row_congr h h.insertRow (fun r hr => ⟨r, mem_insertRow_of_mem h hr, rfl, rfl⟩) ?_
  rintro ⟨r, hr, rfl⟩
  rcases mem_insertRow h hr with hr | ⟨-, -, heq, -⟩
  · exact ⟨r, hr, rfl⟩
  · exact absurd heq hne

omit [DecidableEq σ] in
/-- A row is there after a deletion unless it was deleted. -/
theorem row_deleteWhere (h : Valid t) (p : Row σ ν δ → Bool) (n : ν) :
    (deleteWhere p t).row n = (t.row n).filter fun r => !p r := by
  cases hrow : t.row n with
  | none =>
    refine row_eq_none ?_
    rintro ⟨r, hr, rfl⟩
    rw [h.row_of_mem (mem_deleteWhere.1 hr).1] at hrow
    cases hrow
  | some r =>
    obtain ⟨hr, rfl⟩ := mem_of_row hrow
    cases hp : p r with
    | true =>
      rw [Option.filter_some_neg (by simp [hp])]
      refine row_eq_none ?_
      rintro ⟨q, hq, hqn⟩
      obtain ⟨hq, hpq⟩ := mem_deleteWhere.1 hq
      rw [h.eq_of_name hq hr hqn, hp] at hpq
      cases hpq
    | false =>
      rw [Option.filter_some_pos (by simp [hp])]
      exact (h.deleteWhere p).row_of_mem (mem_deleteWhere.2 ⟨hr, hp⟩)

/-! ## What becomes of the defaults -/

/-- A new row of a scope without a default is its default. -/
def NewDefault (t t' : DefaultTable σ ν δ) : Prop :=
  ∀ r ∈ t', ¬ t.Has r.name → ¬ HasDefault r.scope t → r.isDefault = true

/-- The row of the name, if there is one, becomes the only default of its scope, and nothing else changes. -/
def DefaultSet (name : ν) (t t' : DefaultTable σ ν δ) : Prop :=
  (¬ t.Has name → t' = t) ∧ ∀ r ∈ t, r.name = name → t' = reflag (flagFor r) t

omit [DecidableEq σ] [DecidableEq ν] in
theorem newDefault_of_has (h : ∀ r ∈ t', t.Has r.name) : NewDefault t t' := fun r hr hn => absurd (h r hr) hn

omit [DecidableEq σ] [DecidableEq ν] in
theorem newDefault_refl (t : DefaultTable σ ν δ) : NewDefault t t := newDefault_of_has fun r hr => ⟨r, hr, rfl⟩

omit [DecidableEq σ] [DecidableEq ν] in
theorem newDefault_deleteWhere (p : Row σ ν δ → Bool) : NewDefault t (deleteWhere p t) :=
  newDefault_of_has fun r hr => ⟨r, (mem_deleteWhere.1 hr).1, rfl⟩

theorem newDefault_setDefault (h : Valid t) (name : ν) : NewDefault t (setDefault name t) :=
  newDefault_of_has fun r hr => by
    obtain ⟨q, hq, -, -, hn, -⟩ := mem_setDefault h hr
    exact ⟨q, hq, hn⟩

theorem newDefault_insertRow (h : Valid t) : NewDefault t (insertRow scope name data t) := by
  intro r hr hno hd
  by_cases hn : t.Has name
  · rw [insertRow_of_has hn] at hr
    exact absurd ⟨r, hr, rfl⟩ hno
  · rw [insertRow_eq h hn] at hr
    rcases List.mem_append.1 hr with hr | hr
    · exact absurd ⟨r, hr, rfl⟩ hno
    · rw [List.mem_singleton.1 hr] at hd ⊢
      exact decide_eq_true hd

theorem defaultSet_setDefault (h : Valid t) (name : ν) : DefaultSet name t (setDefault name t) :=
  ⟨setDefault_of_missing, fun r hr hn => by rw [← hn, setDefault_of_mem h hr]⟩

end DefaultTable
