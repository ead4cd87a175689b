/-
Lists of the numbers up to a bound with one number left out: a list that has them all is at least as
long as the bound, and a list of them without duplicates that is as long has them all. Lists apart from each
other, each a prefix of one of some lists.
-/
import Mathlib.Data.Finset.Card
import Mathlib.Data.Finset.Range

namespace Pigeonhole

variable {l : List ℕ} {last excluded : ℕ}

theorem le_length_of_covers (h : ∀ n ≤ last, n ≠ excluded → n ∈ l) : last ≤ l.length := by
  have hsub : (Finset.range (last + 1)).erase excluded ⊆ l.toFinset := by
    intro n hn
    obtain ⟨hne, hn⟩ := Finset.mem_erase.1 hn
    exact List.mem_toFinset.2 (h n (Nat.lt_succ_iff.1 (Finset.mem_range.1 hn)) hne)
  have hcard := Finset.card_le_card hsub
  have hpred := Finset.pred_card_le_card_erase (s := Finset.range (last + 1)) (a := excluded)
  have hlen := List.toFinset_card_le l
  rw [Finset.card_range] at hpred
  omega

theorem covers_of_le_length (hnd : l.Nodup) (hmem : ∀ n ∈ l, n ≤ last ∧ n ≠ excluded) (hex : excluded ≤ last)
    (hlen : last ≤ l.length) : ∀ n ≤ last, n ≠ excluded → n ∈ l := by
  have hsub : l.toFinset ⊆ (Finset.range (last + 1)).erase excluded := by
    intro n hn
    obtain ⟨hle, hne⟩ := hmem n (List.mem_toFinset.1 hn)
    exact Finset.mem_erase.2 ⟨hne, Finset.mem_range.2 (Nat.lt_succ_of_le hle)⟩
  have hcard : ((Finset.range (last + 1)).erase excluded).card ≤ l.toFinset.card := by
    rw [Finset.card_erase_of_mem (Finset.mem_range.2 (Nat.lt_succ_of_le hex)), Finset.card_range,
      List.toFinset_card_of_nodup hnd]
    exact hlen
  intro n hn hne
  rw [← List.mem_toFinset, Finset.eq_of_subset_of_card_le hsub hcard]
  exact Finset.mem_erase.2 ⟨hne, Finset.mem_range.2 (Nat.lt_succ_of_le hn)⟩

/-- Lists of which no two are prefixes of one list, each a prefix of one in `ds`, are at most as many. -/
theorem length_le_of_prefixes {α : Type*} [DecidableEq α] {ls ds : List (List α)}
    (hapart : ls.Pairwise fun a b => ¬ a <+: b ∧ ¬ b <+: a) (h : ∀ a ∈ ls, ∃ d ∈ ds, a <+: d) :
    ls.length ≤ ds.length := by
  induction ls generalizing ds with
  | nil => exact Nat.zero_le _
  | cons a ls ih =>
    obtain ⟨hhead, htail⟩ := List.pairwise_cons.1 hapart
    obtain ⟨d, hd, had⟩ := h a List.mem_cons_self
    -- the others are prefixes of other lists
    have hothers : ∀ b ∈ ls, ∃ d' ∈ ds.erase d, b <+: d' := by
      intro b hb
      obtain ⟨d', hd', hbd⟩ := h b (List.mem_cons_of_mem _ hb)
      have hne : d' ≠ d := by
        rintro rfl
        rcases Nat.le_total a.length b.length with hle | hle
        · exact (hhead b hb).1 (List.prefix_of_prefix_length_le had hbd hle)
        · exact (hhead b hb).2 (List.prefix_of_prefix_length_le hbd had hle)
      exact ⟨d', (List.mem_erase_of_ne hne).2 hd', hbd⟩
    have hle := ih htail hothers
    have hpos := List.length_pos_of_mem hd
    rw [List.length_erase_of_mem hd] at hle
    rw [List.length_cons]
    omega

end Pigeonhole
