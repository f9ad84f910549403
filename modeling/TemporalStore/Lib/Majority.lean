import Mathlib.Data.Finset.Card
import Mathlib.Data.List.Sort

namespace Lib

open List Finset

variable {α : Type} [DecidableEq α]

lemma card_le_inter_add {support voters : Finset α} (h : support ⊆ voters)
    (members : Finset α) : support.card ≤ (support ∩ members).card + (voters \ members).card := by
  rw [← card_inter_add_card_sdiff support members]
  exact Nat.add_le_add_left (card_le_card (sdiff_subset_sdiff h subset_rfl)) _

lemma exists_support {voters : Finset α} {n : ℕ} (h : n ≤ voters.card) (members : Finset α) :
    ∃ support ⊆ voters, support.card = n ∧
      (support ∩ members).card = n - (voters \ members).card := by
  rcases Nat.lt_or_ge n (voters \ members).card with hlt | hle
  · -- there are enough that are no members
    obtain ⟨support, hsupp, hcard⟩ := exists_subset_card_eq (Nat.le_of_lt hlt)
    refine ⟨support, hsupp.trans sdiff_subset, hcard, ?_⟩
    have hnone : support ∩ members = ∅ :=
      disjoint_iff_inter_eq_empty.mp
        (disjoint_of_subset_left hsupp sdiff_disjoint)
    rw [hnone, card_empty]
    omega
  · obtain ⟨support, hbelow, habove, hcard⟩ :=
      exists_subsuperset_card_eq (sdiff_subset (t := members)) hle h
    refine ⟨support, habove, hcard, ?_⟩
    have hrest : support \ members = voters \ members := by
      apply Finset.Subset.antisymm (sdiff_subset_sdiff habove subset_rfl)
      intro x hx
      exact mem_sdiff.mpr ⟨hbelow hx, (mem_sdiff.mp hx).2⟩
    have := card_inter_add_card_sdiff support members
    rw [hrest] at this
    omega

lemma lt_countP_of_getElem {l : List ℕ} (h : l.Pairwise (· ≥ ·)) {n a : ℕ} (ha : l[n]? = some a) :
    n < l.countP (a ≤ ·) := by
  induction l generalizing n with
  | nil => cases ha
  | cons b l ih =>
    obtain ⟨hb, hl⟩ := pairwise_cons.mp h
    cases n with
    | zero =>
      cases ha
      rw [countP_cons_of_pos (by simp)]
      exact Nat.succ_pos _
    | succ n =>
      have hle : a ≤ b := hb a (mem_of_getElem? ha)
      rw [countP_cons_of_pos (by simpa using hle)]
      exact Nat.succ_lt_succ (ih hl ha)

lemma lt_countP_of_insertionSort {l : List ℕ} {n a : ℕ}
    (ha : (l.insertionSort (· ≥ ·))[n]? = some a) : n < l.countP (a ≤ ·) := by
  rw [← (perm_insertionSort (· ≥ ·) l).countP_eq]
  exact lt_countP_of_getElem (pairwise_insertionSort _ _) ha

end Lib
