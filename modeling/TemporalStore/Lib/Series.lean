import Mathlib.Algebra.BigOperators.Group.List.Basic
import Mathlib.Order.Lattice

namespace Lib

open List

/-- The points of a series, by instant. -/
abbrev Series (τ μ : Type) := List (τ × μ)

namespace Series

variable {τ μ : Type} [LinearOrder τ] [AddCommMonoid μ]

/-- Add an amount at an instant. -/
def bump : Series τ μ → τ → μ → Series τ μ
  | [], t, a => [(t, a)]
  | (u, b) :: s, t, a =>
    if t < u then (t, a) :: (u, b) :: s
    else if t = u then (u, b + a) :: s
    else (u, b) :: bump s t a

/-- The amount at an instant is this one from now on. -/
def put : Series τ μ → τ → μ → Series τ μ
  | [], t, a => [(t, a)]
  | (u, b) :: s, t, a =>
    if t < u then (t, a) :: (u, b) :: s
    else if t = u then (u, a) :: s
    else (u, b) :: put s t a

/-- The amounts at the instants that `p` holds of. -/
def sumOver (p : τ → Bool) (s : Series τ μ) : μ := ((s.filter fun x => p x.1).map Prod.snd).sum

/-- Oldest first, one point an instant. -/
def Ordered (s : Series τ μ) : Prop := s.Pairwise fun x y => x.1 < y.1

omit [LinearOrder τ] in
@[simp] lemma sumOver_nil (p : τ → Bool) : sumOver p ([] : Series τ μ) = 0 := rfl

omit [LinearOrder τ] in
lemma sumOver_cons (p : τ → Bool) (x : τ × μ) (s : Series τ μ) :
    sumOver p (x :: s) = (if p x.1 then x.2 else 0) + sumOver p s := by
  unfold sumOver
  by_cases h : p x.1 <;> simp [h]

variable {p : τ → Bool} {s : Series τ μ}

omit [LinearOrder τ] in
lemma sumOver_congr {q : τ → Bool} (h : ∀ x ∈ s, p x.1 = q x.1) : sumOver p s = sumOver q s := by
  unfold sumOver
  rw [filter_congr h]

omit [LinearOrder τ] in
lemma sumOver_eq_zero (h : ∀ x ∈ s, p x.1 = false) : sumOver p s = 0 := by
  rw [sumOver_congr (q := fun _ => false) h]
  simp [sumOver]

omit [LinearOrder τ] in
lemma sumOver_split {q r : τ → Bool} (hor : ∀ t, r t = (p t || q t))
    (hand : ∀ t, (p t && q t) = false) (s : Series τ μ) :
    sumOver r s = sumOver p s + sumOver q s := by
  induction s with
  | nil => simp
  | cons x s ih =>
    rw [sumOver_cons, sumOver_cons, sumOver_cons]
    cases hp : p x.1 <;> cases hq : q x.1 <;> simp_all [add_assoc, add_left_comm]

lemma sumOver_bump (p : τ → Bool) (s : Series τ μ) (t : τ) (a : μ) :
    sumOver p (bump s t a) = sumOver p s + if p t then a else 0 := by
  induction s with
  | nil => simp [bump, sumOver_cons]
  | cons x s ih =>
    obtain ⟨u, b⟩ := x
    simp only [bump]
    split
    · rw [sumOver_cons, add_comm]
    split
    case isTrue h =>
      subst h
      rw [sumOver_cons, sumOver_cons]
      by_cases hp : p t <;> simp [hp, add_assoc, add_comm a]
    case isFalse => rw [sumOver_cons, sumOver_cons, ih, add_assoc]

omit [AddCommMonoid μ] in
lemma mem_of_mem_put {t : τ} {x : τ × μ} {a : μ} (h : x ∈ put s t a) : x = (t, a) ∨ x ∈ s := by
  induction s with
  | nil => exact .inl (by simpa [put] using h)
  | cons y s ih =>
    rw [put] at h
    split_ifs at h
    · exact (mem_cons.mp h).imp id id
    · rcases mem_cons.mp h with rfl | h
      · next heq => exact .inl (by rw [heq])
      · exact .inr (mem_cons_of_mem _ h)
    · rcases mem_cons.mp h with rfl | h
      · exact .inr mem_cons_self
      · exact (ih h).imp id (mem_cons_of_mem _)

omit [AddCommMonoid μ] in
lemma Ordered.put (h : Ordered s) (t : τ) (a : μ) : Ordered (put s t a) := by
  induction s with
  | nil => exact pairwise_singleton _ _
  | cons y s ih =>
    obtain ⟨hhead, htail⟩ := pairwise_cons.mp h
    rw [Series.put]
    split_ifs with hlt heq
    · refine pairwise_cons.mpr ⟨fun x hx => ?_, h⟩
      rcases mem_cons.mp hx with rfl | hx
      · exact hlt
      · exact hlt.trans (hhead x hx)
    · exact pairwise_cons.mpr ⟨hhead, htail⟩
    · refine pairwise_cons.mpr ⟨fun x hx => ?_, ih htail⟩
      rcases mem_of_mem_put hx with rfl | hx
      · exact lt_of_le_of_ne (not_lt.mp hlt) (Ne.symm heq)
      · exact hhead x hx

lemma exists_bump_eq_put (s : Series τ μ) (t : τ) (a : μ) : ∃ b, bump s t a = put s t b := by
  induction s with
  | nil => exact ⟨a, rfl⟩
  | cons x s ih =>
    obtain ⟨b, hb⟩ := ih
    simp only [Series.bump, Series.put]
    split_ifs
    · exact ⟨a, rfl⟩
    · exact ⟨x.2 + a, rfl⟩
    · exact ⟨b, by rw [hb]⟩

lemma instant_of_mem_bump {t : τ} {a : μ} {x : τ × μ} (h : x ∈ bump s t a) :
    x.1 = t ∨ ∃ y ∈ s, y.1 = x.1 := by
  obtain ⟨b, hb⟩ := exists_bump_eq_put s t a
  rw [hb] at h
  rcases mem_of_mem_put h with rfl | h
  · exact .inl rfl
  · exact .inr ⟨x, h, rfl⟩

lemma Ordered.bump (h : Ordered s) (t : τ) (a : μ) : Ordered (bump s t a) := by
  obtain ⟨b, hb⟩ := exists_bump_eq_put s t a
  rw [hb]
  exact h.put t b

lemma length_le_length_bump (s : Series τ μ) (t : τ) (a : μ) : s.length ≤ (bump s t a).length := by
  induction s with
  | nil => simp [bump]
  | cons x s ih =>
    simp only [bump]
    split
    · simp
    split
    · simp
    · simpa using ih

lemma length_bump_of_new {t : τ} (h : ∀ x ∈ s, x.1 ≠ t) (a : μ) :
    (bump s t a).length = s.length + 1 := by
  induction s with
  | nil => rfl
  | cons x s ih =>
    obtain ⟨u, b⟩ := x
    have hne : t ≠ u := (h (u, b) mem_cons_self).symm
    simp only [bump, if_neg hne]
    split
    · rfl
    · simpa using ih fun y hy => h y (mem_cons_of_mem _ hy)

omit [AddCommMonoid μ] in
lemma Ordered.take_lt_drop (h : Ordered s) {n : ℕ} {x y : τ × μ} (hx : x ∈ s.take n)
    (hy : y ∈ s.drop n) : x.1 < y.1 := by
  rw [← take_append_drop n s] at h
  exact (pairwise_append.mp h).2.2 x hx y hy

omit [AddCommMonoid μ] in
lemma Ordered.drop (h : Ordered s) (n : ℕ) : Ordered (s.drop n) :=
  h.sublist (drop_sublist n s)

end Series

end Lib
