import Mathlib.Data.List.Sort

namespace Lib

open List

lemma foldl_max_le_iff {l : List ℕ} {m n : ℕ} : l.foldl max m ≤ n ↔ m ≤ n ∧ ∀ x ∈ l, x ≤ n := by
  induction l generalizing m with
  | nil => simp
  | cons x l ih => rw [foldl_cons, ih, Nat.max_le, forall_mem_cons, and_assoc]

lemma le_foldl_max_of_mem {l : List ℕ} {x : ℕ} (h : x ∈ l) (m : ℕ) : x ≤ l.foldl max m :=
  (foldl_max_le_iff.mp le_rfl).2 x h

lemma exists_eq_foldl_max {α : Type} (f : α → ℕ) {l : List α} (hne : l ≠ []) :
    ∃ a ∈ l, f a = (l.map f).foldl max 0 := by
  obtain ⟨a, l, rfl⟩ := exists_cons_of_ne_nil hne
  rw [map_cons, foldl_cons, ← mem_map]
  exact max?_mem max?_cons'

lemma foldl_max_of_pairwise {l : List ℕ} (hl : l.Pairwise (· < ·)) {last : ℕ}
    (hlast : ∀ x ∈ l, last ≤ x) : l.foldl max last = l.getLastD last := by
  induction l generalizing last with
  | nil => rfl
  | cons x l ih =>
    rw [pairwise_cons] at hl
    rw [foldl_cons, max_eq_right (hlast x mem_cons_self),
      ih hl.2 fun y hy => (hl.1 y hy).le, getLastD_cons]

lemma getLast?_insertionSort {α β : Type} [LinearOrder β] (key : α → β) {l : List α} {x : α}
    (hx : x ∈ l) (h : ∀ y ∈ l, y ≠ x → key y < key x) :
    (l.insertionSort fun a b => key a ≤ key b).getLast? = some x := by
  let r : α → α → Prop := fun a b => key a ≤ key b
  have hsort : (l.insertionSort r).Pairwise r := pairwise_insertionSort r l
  have hmem : x ∈ l.insertionSort r := (mem_insertionSort r).mpr hx
  obtain ⟨before, last, hlast⟩ := (eq_nil_or_concat _).resolve_left (ne_nil_of_mem hmem)
  rw [concat_eq_append] at hlast
  have hin : last ∈ l.insertionSort r := by
    rw [hlast]
    exact mem_append_right _ mem_cons_self
  rw [hlast] at hsort hmem ⊢
  have heq : last = x := by
    by_contra hne
    have hle : key x ≤ key last := by
      rcases mem_append.mp hmem with hbef | hx
      · exact (pairwise_append.mp hsort).2.2 x hbef last mem_cons_self
      · exact absurd (mem_singleton.mp hx).symm hne
    exact absurd (h last ((mem_insertionSort r).mp hin) hne) (not_lt.mpr hle)
  rw [getLast?_append, heq]
  rfl

/-- Where no element after one that fails satisfies the predicate, the first that satisfy it are all
that do. -/
lemma take_takeWhile_eq_filter {α : Type} {p : α → Bool} {l : List α}
    (h : l.Pairwise fun a b => p b → p a) (n : ℕ) :
    (l.takeWhile p).take n = (l.take n).filter p := by
  induction l generalizing n with
  | nil => simp
  | cons a l ih =>
    obtain ⟨ha, hl⟩ := pairwise_cons.mp h
    cases n with
    | zero => simp
    | succ n =>
      cases hp : p a with
      | true => simp [hp, ih hl]
      | false =>
        have hnone : (l.take n).filter p = [] :=
          filter_eq_nil_iff.mpr fun b hb hpb => by simp [ha b (mem_of_mem_take hb) hpb] at hp
        simp [hp, hnone]

lemma update_eq_iff {α β : Type} [DecidableEq α] {f : α → β} {a b : α} {v w : β} :
    Function.update f a v b = w ↔ b = a ∧ v = w ∨ b ≠ a ∧ f b = w := by
  rw [Function.update_apply, ite_eq_iff]

end Lib
