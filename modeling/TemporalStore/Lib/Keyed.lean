import TemporalStore.Lib.Series
import TemporalStore.Lib.Numbered
import Mathlib.Data.List.Sort

namespace Lib.Series

open List

variable {τ μ : Type} [LinearOrder τ]

variable {s : Series τ μ} {t : τ} {x : τ × μ}

lemma mem_put_self (s : Series τ μ) (t : τ) (a : μ) : (t, a) ∈ put s t a := by
  induction s with
  | nil => exact mem_cons_self
  | cons y s ih =>
    rw [put]
    split_ifs with hlt heq
    · exact mem_cons_self
    · rw [heq]
      exact mem_cons_self
    · exact mem_cons_of_mem _ ih

lemma mem_put_of_ne (a : μ) (h : x ∈ s) (hne : x.1 ≠ t) : x ∈ put s t a := by
  induction s with
  | nil => simp at h
  | cons y s ih =>
    rw [put]
    split_ifs with hlt heq
    · exact mem_cons_of_mem _ h
    · rcases mem_cons.mp h with rfl | h
      · exact absurd heq.symm hne
      · exact mem_cons_of_mem _ h
    · rcases mem_cons.mp h with rfl | h
      · exact mem_cons_self
      · exact mem_cons_of_mem _ (ih h)

lemma put_put (s : Series τ μ) (t : τ) (a b : μ) : put (put s t a) t b = put s t b := by
  induction s with
  | nil => simp [put]
  | cons y s ih =>
    rw [put, put]
    split_ifs with hlt heq
    · rw [put, if_neg (lt_irrefl t), if_pos rfl]
    · rw [put, if_neg hlt, if_pos heq]
    · rw [put, if_neg hlt, if_neg heq, ih]

lemma lookup_put_self (s : Series τ μ) (t : τ) (a : μ) : (put s t a).lookup t = some a := by
  induction s with
  | nil => exact lookup_cons_self
  | cons y s ih =>
    rw [put]
    split_ifs with hlt heq
    · exact lookup_cons_self
    · rw [heq, lookup_cons_self]
    · rw [lookup_cons, beq_false_of_ne heq]
      exact ih

lemma lookup_put_of_ne (s : Series τ μ) {u : τ} (a : μ) (hne : u ≠ t) :
    (put s t a).lookup u = s.lookup u := by
  induction s with
  | nil =>
    rw [put, lookup_cons, beq_false_of_ne hne]
  | cons y s ih =>
    rw [put]
    split_ifs with hlt heq
    · rw [lookup_cons, beq_false_of_ne hne]
    · rw [lookup_cons, lookup_cons, beq_false_of_ne (heq ▸ hne)]
    · rw [lookup_cons, lookup_cons, ih]

lemma mem_of_lookup {a : μ} (h : s.lookup t = some a) : (t, a) ∈ s := by
  obtain ⟨before, after, rfl, -⟩ := lookup_eq_some_iff.mp h
  exact mem_append_right _ mem_cons_self

lemma Ordered.lookup_eq_some (h : Ordered s) {a : μ} : s.lookup t = some a ↔ (t, a) ∈ s := by
  induction s with
  | nil => simp
  | cons y s ih =>
    obtain ⟨u, b⟩ := y
    obtain ⟨hhead, htail⟩ := pairwise_cons.mp h
    rw [mem_cons, Prod.mk.injEq]
    by_cases htu : t = u
    · rw [htu, lookup_cons_self, Option.some.injEq]
      constructor
      · rintro rfl
        exact .inl ⟨rfl, rfl⟩
      · rintro (⟨-, hab⟩ | hmem)
        · exact hab.symm
        · exact absurd (hhead _ hmem) (lt_irrefl u)
    · rw [lookup_cons, beq_false_of_ne htu]
      rw [ih htail, or_iff_right (fun hcontra => htu hcontra.1)]

/-- The map that a sequence of insertions leaves. -/
def inOrder (l : List (τ × μ)) : Series τ μ := l.foldl (fun s x => put s x.1 x.2) []

lemma inOrder_append_one (l : List (τ × μ)) (x : τ × μ) :
    inOrder (l ++ [x]) = put (inOrder l) x.1 x.2 := by
  rw [inOrder, foldl_append, foldl_cons, foldl_nil, inOrder]

lemma ordered_inOrder (l : List (τ × μ)) : Ordered (inOrder l) := by
  induction l using reverseRecOn with
  | nil => exact List.Pairwise.nil
  | append_singleton l x ih =>
    rw [inOrder_append_one]
    exact ih.put x.1 x.2

variable {l : List (τ × μ)}

lemma mem_of_mem_inOrder (h : x ∈ inOrder l) : x ∈ l := by
  induction l using reverseRecOn with
  | nil => exact h
  | append_singleton l y ih =>
    rw [inOrder_append_one] at h
    rw [mem_append, mem_singleton]
    rcases mem_of_mem_put h with rfl | h
    · exact .inr rfl
    · exact .inl (ih h)

lemma exists_mem_inOrder (h : x ∈ l) : ∃ y ∈ inOrder l, y.1 = x.1 := by
  induction l using reverseRecOn with
  | nil => simp at h
  | append_singleton l y ih =>
    rw [inOrder_append_one]
    rw [mem_append, mem_singleton] at h
    by_cases hkey : y.1 = x.1
    · exact ⟨(y.1, y.2), mem_put_self _ _ _, hkey⟩
    · rcases h with h | rfl
      · obtain ⟨z, hz, hzx⟩ := ih h
        exact ⟨z, mem_put_of_ne _ hz fun h => hkey (h.symm.trans hzx), hzx⟩
      · exact absurd rfl hkey

lemma mem_inOrder (h : ∀ x ∈ l, ∀ y ∈ l, x.1 = y.1 → x = y) : x ∈ inOrder l ↔ x ∈ l := by
  constructor
  · exact mem_of_mem_inOrder
  · intro hx
    obtain ⟨y, hy, hyx⟩ := exists_mem_inOrder hx
    exact h y (mem_of_mem_inOrder hy) x hx hyx ▸ hy

lemma inOrder_eq_nil : inOrder l = [] ↔ l = [] := by
  constructor
  · intro h
    induction l using reverseRecOn with
    | nil => rfl
    | append_singleton l x _ =>
      rw [inOrder_append_one] at h
      exact absurd (h ▸ mem_put_self (inOrder l) x.1 x.2) (by simp)
  · rintro rfl
    rfl

lemma Ordered.eq_of_mem_iff {r : Series τ μ} (hs : Ordered s) (hr : Ordered r)
    (h : ∀ x, x ∈ s ↔ x ∈ r) : s = r := by
  have hnodup {q : Series τ μ} (hq : Ordered q) : q.Nodup :=
    hq.imp fun hlt heq => absurd (heq ▸ hlt) (lt_irrefl _)
  refine List.Perm.eq_of_pairwise (fun a b _ _ hab hba => absurd hab (lt_asymm hba)) hs hr ?_
  exact (perm_ext_iff_of_nodup (hnodup hs) (hnodup hr)).mpr h

lemma inOrder_of_ordered (h : Ordered l) : inOrder l = l := by
  have hnodup : (l.map Prod.fst).Nodup := (pairwise_map.mpr h).imp ne_of_lt
  refine (ordered_inOrder l).eq_of_mem_iff h fun x => mem_inOrder ?_
  intro a ha b hb hkey
  exact inj_on_of_nodup_map hnodup ha hb hkey

lemma ordered_of_numbered {l : List (ℕ × μ)} {start : ℕ} (h : Numbered Prod.fst start l) :
    Ordered l := by
  have hkeys : (l.map Prod.fst).Pairwise (· < ·) := by
    rw [h]
    exact pairwise_lt_range'
  exact pairwise_map.mp hkeys

/-- A map whose keys are exactly those from `start` on, `n` of them, lists them one by one. -/
lemma Ordered.numbered {s : Series ℕ μ} (hs : Ordered s) {start n : ℕ}
    (h : ∀ k, (∃ x ∈ s, x.1 = k) ↔ start ≤ k ∧ k < start + n) :
    Numbered Prod.fst start s ∧ s.length = n := by
  have hkeys : s.map Prod.fst = range' start n := by
    have hpair : (s.map Prod.fst).Pairwise (· < ·) := pairwise_map.mpr hs
    refine List.Perm.eq_of_pairwise (fun a b _ _ hab hba => absurd hab (lt_asymm hba)) hpair
      pairwise_lt_range' ?_
    refine (perm_ext_iff_of_nodup (hpair.imp ne_of_lt) nodup_range').mpr fun k => ?_
    rw [mem_map, mem_range'_1]
    exact h k
  have hlen : s.length = n := by simpa using congrArg length hkeys
  refine ⟨?_, hlen⟩
  rw [Numbered, hkeys, hlen]

end Lib.Series
