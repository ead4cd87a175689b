/-
How the dissector reads a number. What is encoded at a place is read there, unless it takes more than one
octet and nothing follows it: the checks against the end of the buffer ask for one octet more than the
number has.
-/
import NdnTools.Dissector.Tiles

namespace NdnTools.Dissector

open Tlv (IsVarNumber bigEndian width)

/-! ## Numbers in a buffer -/

/-- The number that a value is, of either kind. -/
def Num.Is : Num → ℕ → Prop
  | .number v, n => v = n
  | .uint64 w, n => w.toNat = n

/-- A complete encoding of a number is in the buffer at a place. -/
def Holds (tvb : Tvb) (offset : Num) (code : Bytes) (n : ℕ) : Prop :=
  IsVarNumber code n ∧ code <+: tvb.bytes.drop offset.toNat

/-- What is encoded at a place is read there, and the length 0 says that nothing is. -/
structure Inverts (tvb : Tvb) (offset : Num) : Prop where
  reads : ∀ code n, Holds tvb offset code n →
    ∃ num : Num, readVarNumber tvb offset = .ok (num, code.length) ∧ num.Is n
  complete : ∀ num, readVarNumber tvb offset = .ok (num, 0) → ∀ code n, ¬ Holds tvb offset code n

/-- An encoding at the place is of a single octet or followed by another one, and the place is no object. -/
def Followed (tvb : Tvb) (offset : Num) : Prop :=
  ∀ code n, Holds tvb offset code n →
    offset.wide = false ∧ (code.length = 1 ∨ offset.toNat + code.length < tvb.len)

variable {tvb : Tvb} {o n : ℕ} {code rest : Bytes} {first : UInt8}

theorem le_len_of_present (h : code <+: tvb.bytes.drop o) (hpos : 0 < code.length) : o + code.length ≤ tvb.len := by
  have hle := h.length_le
  rw [List.length_drop] at hle
  unfold Tvb.len
  omega

/-- Octets that are in the buffer are what is read of it. -/
theorem uint_of_present {before : Bytes} (h : before ++ code <+: tvb.bytes.drop o) (hpos : 0 < code.length) :
    tvb.uint ((o + before.length : ℕ) : Num) (code.length : Num) = .ok (bigEndian code) := by
  have hle := le_len_of_present h (by rw [List.length_append]; omega)
  rw [List.length_append] at hle
  obtain ⟨after, hafter⟩ := h
  have hdrop : tvb.bytes.drop (o + before.length) = code ++ after := by
    rw [← List.drop_drop, ← hafter, List.append_assoc, List.drop_left]
  rw [Tvb.uint_ok (by omega), hdrop, List.take_left]

theorem uint_first (h : first :: rest <+: tvb.bytes.drop o) : tvb.uint (o : Num) 1 = .ok first.toNat := by
  have hone : [] ++ [first] <+: tvb.bytes.drop o := List.IsPrefix.trans ⟨rest, rfl⟩ h
  have huint := uint_of_present hone Nat.one_pos
  rw [show bigEndian [first] = first.toNat by simp [bigEndian]] at huint
  exact huint

theorem uint_rest (h : first :: rest <+: tvb.bytes.drop o) (hpos : 0 < rest.length) :
    tvb.uint ((o : Num) + 1) (rest.length : Num) = .ok (bigEndian rest) :=
  @uint_of_present _ _ _ [first] h hpos

theorem not_len_le_of_present (h : first :: rest <+: tvb.bytes.drop o) : ¬ (o : Num) ≥ (tvb.len : Num) := by
  have hle := le_len_of_present h (by simp)
  rw [List.length_cons] at hle
  exact fun hge => absurd (Num.number_le_natCast.1 hge) (by omega)

/-! ## Reading it -/

theorem readVarNumber_single (hlt : first < 253) (h : first :: rest <+: tvb.bytes.drop o) :
    readVarNumber tvb (o : Num) = .ok (first.toNat, 1) := by
  have hfirst : first.toNat < 253 := UInt8.lt_iff_toNat_lt.1 hlt
  simp only [readVarNumber, if_neg (not_len_le_of_present h), uint_first h, bind, Except.bind, if_pos hfirst]

theorem first_cases (hge : ¬ first < 253) : first = 253 ∨ first = 254 ∨ first = 255 := by
  have hle : 253 ≤ first.toNat := not_lt.1 fun h => hge (UInt8.lt_iff_toNat_lt.2 h)
  have hlt := first.toNat_lt
  rcases (by omega : first.toNat = 253 ∨ first.toNat = 254 ∨ first.toNat = 255) with h | h | h
  · exact .inl (UInt8.toNat_inj.1 h)
  · exact .inr (.inl (UInt8.toNat_inj.1 h))
  · exact .inr (.inr (UInt8.toNat_inj.1 h))

/-- The value of the octets behind the first one, eight of which make an object. -/
def wideValue (rest : Bytes) : Num :=
  if rest.length = 8 then .uint64 (UInt64.ofNat (bigEndian rest)) else (bigEndian rest : Num)

/-- Each size has a branch of its own, and each branch asks for an octet behind the number. -/
theorem readVarNumber_wide (hge : ¬ first < 253) (hlen : rest.length = width first)
    (h : first :: rest <+: tvb.bytes.drop o) :
    readVarNumber tvb (o : Num) =
      .ok (if o + (rest.length + 1) < tvb.len then (wideValue rest, rest.length + 1) else (0, 0)) := by
  have hlt : ∀ k : ℕ, (o : Num) + (k : Num) < (tvb.len : Num) ↔ o + k < tvb.len :=
    fun k => Num.number_lt_natCast (m := o + k)
  rcases first_cases hge with rfl | rfl | rfl
  · have hlen : rest.length = 2 := hlen
    have huint := uint_rest h (by omega)
    rw [hlen] at huint ⊢
    have hread : tvb.uint ((o : Num) + 1) 2 = .ok (bigEndian rest) := huint
    have hin : (o : Num) + 3 < (tvb.len : Num) ↔ o + 3 < tvb.len := hlt 3
    have hoctet : (253 : UInt8).toNat = 253 := rfl
    simp only [readVarNumber, if_neg (not_len_le_of_present h), uint_first h, hread, hin, bind, Except.bind, wideValue,
      hlen, hoctet, Nat.reduceLT, Nat.reduceEqDiff, true_and, false_and, if_false]
    split <;> rfl
  · have hlen : rest.length = 4 := hlen
    have huint := uint_rest h (by omega)
    rw [hlen] at huint ⊢
    have hread : tvb.uint ((o : Num) + 1) 4 = .ok (bigEndian rest) := huint
    have hin : (o : Num) + 5 < (tvb.len : Num) ↔ o + 5 < tvb.len := hlt 5
    have hoctet : (254 : UInt8).toNat = 254 := rfl
    simp only [readVarNumber, if_neg (not_len_le_of_present h), uint_first h, hread, hin, bind, Except.bind, wideValue,
      hlen, hoctet, Nat.reduceLT, Nat.reduceEqDiff, true_and, false_and, if_false]
    split <;> rfl
  · have hlen : rest.length = 8 := hlen
    have huint := uint_rest h (by omega)
    rw [hlen] at huint ⊢
    have hread : tvb.uint64 ((o : Num) + 1) = .ok (UInt64.ofNat (bigEndian rest)) := by
      unfold Tvb.uint64
      rw [show tvb.uint ((o : Num) + 1) 8 = .ok (bigEndian rest) from huint]
      rfl
    have hin : (o : Num) + 9 < (tvb.len : Num) ↔ o + 9 < tvb.len := hlt 9
    have hoctet : (255 : UInt8).toNat = 255 := rfl
    simp only [readVarNumber, if_neg (not_len_le_of_present h), uint_first h, hread, hin, bind, Except.bind, wideValue,
      hlen, hoctet, Nat.reduceLT, Nat.reduceEqDiff, true_and, false_and, if_false, if_true]
    split <;> rfl

theorem wideValue_is (rest : Bytes) : (wideValue rest).Is (bigEndian rest) := by
  unfold wideValue
  split
  · rename_i height
    have hlt := Tlv.bigEndian_lt rest
    rw [height] at hlt
    exact UInt64.toNat_ofNat_of_lt' hlt
  · exact rfl

/-- What an encoding in the buffer is read as. -/
theorem readVarNumber_of_holds (h : Holds tvb (o : Num) code n) :
    ∃ num : Num, num.Is n ∧ readVarNumber tvb (o : Num) =
      .ok (if code.length = 1 ∨ o + code.length < tvb.len then (num, code.length) else (0, 0)) := by
  obtain ⟨hcode, hpresent⟩ := h
  rw [Num.toNat_natCast] at hpresent
  cases hcode with
  | @single first lt =>
    refine ⟨(first.toNat : Num), rfl, ?_⟩
    rw [if_pos (.inl rfl)]
    exact readVarNumber_single lt hpresent
  | @wide first rest ge length =>
    refine ⟨wideValue rest, wideValue_is rest, ?_⟩
    have hlong : rest.length + 1 ≠ 1 := by
      rw [length]
      rcases first_cases ge with rfl | rfl | rfl <;> decide
    rw [readVarNumber_wide ge length hpresent]
    simp only [hlong, false_or, List.length_cons]

/-- An object is no place to read at. -/
theorem not_inverts_of_uint64 {w : UInt64} (h : Holds tvb (.uint64 w) code n) : ¬ Inverts tvb (.uint64 w) := by
  intro hinverts
  have hpos := h.1.length_pos
  obtain ⟨num, hread, -⟩ := hinverts.reads code n h
  rw [readVarNumber_uint64] at hread
  split at hread
  · cases hread
  · have hzero := (Prod.mk.inj (Except.ok.inj hread)).2
    omega

/-- What is encoded at a place is read there exactly if it is a single octet or an octet follows it, and the place
is no object. -/
theorem inverts_iff_followed (tvb : Tvb) (offset : Num) (hpos : 0 ≤ offset) :
    Inverts tvb offset ↔ Followed tvb offset := by
  cases offset with
  | uint64 w =>
    constructor
    · exact fun hinverts code n h => absurd hinverts (not_inverts_of_uint64 h)
    · intro hfollowed
      have hno : ∀ code n, ¬ Holds tvb (.uint64 w) code n := fun code n h => by cases (hfollowed code n h).1
      exact ⟨fun code n h => absurd h (hno code n), fun _ _ => hno⟩
  | number v =>
    obtain ⟨o, rfl⟩ := Int.eq_ofNat_of_zero_le hpos
    constructor
    · intro hinverts code n h
      have hlen := h.1.length_pos
      obtain ⟨num, hread, -⟩ := hinverts.reads code n h
      obtain ⟨num', -, hread'⟩ := readVarNumber_of_holds h
      refine ⟨rfl, by_contra fun hlast => ?_⟩
      rw [Num.toNat_natCast] at hlast
      rw [hread, if_neg hlast] at hread'
      have hzero := (Prod.mk.inj (Except.ok.inj hread')).2
      omega
    · intro hfollowed
      have hreads : ∀ code n, Holds tvb (o : Num) code n →
          ∃ num : Num, readVarNumber tvb (o : Num) = .ok (num, code.length) ∧ num.Is n := by
        intro code n h
        obtain ⟨num, hnum, hread⟩ := readVarNumber_of_holds h
        have hfits := (hfollowed code n h).2
        rw [Num.toNat_natCast] at hfits
        rw [if_pos hfits] at hread
        exact ⟨num, hread, hnum⟩
      refine ⟨hreads, fun num hzero code n h => ?_⟩
      have hlen := h.1.length_pos
      obtain ⟨num', hread, -⟩ := hreads code n h
      rw [hzero] at hread
      have hlength := (Prod.mk.inj (Except.ok.inj hread)).2
      omega

/-- The number behind the type of a packet of 256 octets. -/
theorem inverts_iff_followed_inside :
    (0 : Num) ≤ 1 ∧ (Inverts ⟨[6, 253, 1, 0, 7], 5⟩ 1 ↔ Followed ⟨[6, 253, 1, 0, 7], 5⟩ 1) :=
  ⟨by decide, inverts_iff_followed ⟨[6, 253, 1, 0, 7], 5⟩ 1 (by decide)⟩

/-- It is not read if the buffer ends with it. -/
theorem last_number_unread : ¬ Inverts ⟨[6, 253, 1, 0], 4⟩ 1 := by
  intro h
  have hholds : Holds ⟨[6, 253, 1, 0], 4⟩ 1 (Tlv.varNumber 256) 256 :=
    ⟨Tlv.isVarNumber_varNumber (by decide), by decide⟩
  obtain ⟨num, hread, -⟩ := h.reads _ _ hholds
  have hzero : readVarNumber ⟨[6, 253, 1, 0], 4⟩ 1 = .ok (0, 0) := by decide
  rw [hzero] at hread
  cases hread

end NdnTools.Dissector
