import Mathlib.Data.List.Range
import Mathlib.Data.List.TakeWhile

namespace Lib

open List

variable {α : Type} {key : α → ℕ} {start : ℕ} {l l' : List α}

/-- The keys of the list are `start`, `start + 1` and so on. -/
def Numbered (key : α → ℕ) (start : ℕ) (l : List α) : Prop :=
  l.map key = range' start l.length

lemma numbered_nil : Numbered key start [] := rfl

lemma Numbered.tail {a : α} (h : Numbered key start (a :: l)) :
    key a = start ∧ Numbered key (start + 1) l := by
  unfold Numbered at h ⊢
  rw [map_cons, length_cons, range'_succ, cons.injEq] at h
  exact h

lemma numbered_cons {a : α} (ha : key a = start) (h : Numbered key (start + 1) l) :
    Numbered key start (a :: l) := by
  unfold Numbered at h ⊢
  rw [map_cons, ha, h, length_cons, range'_succ]

namespace Numbered

variable (h : Numbered key start l)
include h

lemma append_one {a : α} (ha : key a = start + l.length) : Numbered key start (l ++ [a]) := by
  unfold Numbered at h ⊢
  rw [map_append, h, length_append, length_singleton, range'_concat]
  simp [ha]

lemma append (h' : Numbered key (start + l.length) l') : Numbered key start (l ++ l') := by
  unfold Numbered at h h' ⊢
  rw [map_append, h, h', length_append, range'_append_1]

lemma drop (k : ℕ) : Numbered key (start + k) (l.drop k) := by
  unfold Numbered at h ⊢
  rw [map_drop, h, drop_range', length_drop, Nat.mul_one]

lemma take (k : ℕ) : Numbered key start (l.take k) := by
  induction l generalizing start k with
  | nil => rw [take_nil]; exact h
  | cons a l ih =>
    cases k with
    | zero => exact numbered_nil
    | succ k =>
      obtain ⟨ha, htail⟩ := h.tail
      exact numbered_cons ha (ih htail k)

lemma key_of_mem {a : α} (ha : a ∈ l) : start ≤ key a ∧ key a < start + l.length := by
  have hmem : key a ∈ l.map key := mem_map_of_mem ha
  rw [h, mem_range'_1] at hmem
  exact hmem

lemma exists_key {i : ℕ} (hstart : start ≤ i) (hlast : i < start + l.length) :
    ∃ a ∈ l, key a = i := by
  rw [← mem_map, h, mem_range'_1]
  exact ⟨hstart, hlast⟩

lemma key_getLast {a : α} (ha : l.getLast? = some a) : key a + 1 = start + l.length := by
  obtain ⟨rest, rfl⟩ := getLast?_eq_some_iff.mp ha
  unfold Numbered at h
  rw [map_append, length_append, length_singleton, range'_concat] at h
  have hlast := append_inj_right' h rfl
  simp only [map_cons, map_nil, cons.injEq, and_true] at hlast
  rw [length_append, length_singleton]
  omega

lemma key_head {a : α} (ha : l.head? = some a) : key a = start := by
  obtain ⟨rest, rfl⟩ := head?_eq_some_iff.mp ha
  exact h.tail.1

lemma lt_of_mem_take {k : ℕ} {a : α} (ha : a ∈ l.take (k - start)) : key a < k := by
  have hkey := (h.take _).key_of_mem ha
  rw [length_take] at hkey
  omega

lemma le_of_mem_drop {k : ℕ} {a : α} (ha : a ∈ l.drop (k - start)) : k ≤ key a := by
  have hkey := (h.drop _).key_of_mem ha
  omega

lemma dropWhile (k : ℕ) : l.dropWhile (key · < k) = l.drop (k - start) := by
  conv_lhs => rw [← take_append_drop (k - start) l]
  rw [dropWhile_append_of_pos fun a ha => by simpa using h.lt_of_mem_take ha, dropWhile_eq_self_iff]
  intro hne
  simpa using h.le_of_mem_drop (getElem_mem hne)

lemma takeWhile (k : ℕ) : l.takeWhile (key · ≤ k) = l.take (k + 1 - start) := by
  have hparts := takeWhile_append_dropWhile (p := (key · < k + 1)) (l := l)
  rw [h.dropWhile] at hparts
  simp only [Nat.lt_succ_iff] at hparts
  exact append_cancel_right (hparts.trans (take_append_drop _ l).symm)

lemma filter_lt (k : ℕ) : l.filter (key · < k) = l.take (k - start) := by
  conv_lhs => rw [← take_append_drop (k - start) l]
  rw [filter_append, filter_eq_self.mpr fun a ha => by simpa using h.lt_of_mem_take ha,
    filter_eq_nil_iff.mpr fun a ha => by simpa using h.le_of_mem_drop ha, append_nil]

lemma filter (k : ℕ) : l.filter (k < key ·) = l.drop (k + 1 - start) := by
  conv_lhs => rw [← take_append_drop (k + 1 - start) l]
  rw [filter_append,
    filter_eq_nil_iff.mpr fun a ha => by simpa using Nat.lt_succ_iff.mp (h.lt_of_mem_take ha),
    filter_eq_self.mpr fun a ha => by simpa using Nat.lt_of_succ_le (h.le_of_mem_drop ha),
    nil_append]

lemma filter_le (k : ℕ) : l.filter (key · ≤ k) = l.take (k + 1 - start) := by
  simp only [← Nat.lt_succ_iff]
  exact h.filter_lt (k + 1)

lemma nodup : (l.map key).Nodup :=
  h ▸ nodup_range'

lemma foldl_max {a : ℕ} (ha : a < start) :
    (l.map key).foldl max a = if l.length = 0 then a else start + l.length - 1 := by
  rw [h]
  induction l.length with
  | zero => rfl
  | succ n ih =>
    rw [range'_concat, foldl_append, ih, foldl_cons, foldl_nil, if_neg (Nat.succ_ne_zero n)]
    split <;> omega

lemma mem_takeWhile {p : ℕ → Bool} {a : α}
    (hclosed : ∀ i j, start ≤ i → i ≤ j → p j → p i) (ha : a ∈ l) (hp : p (key a)) :
    a ∈ l.takeWhile (fun b => p (key b)) := by
  induction l generalizing start with
  | nil => exact absurd ha not_mem_nil
  | cons b l ih =>
    obtain ⟨hb, htail⟩ := h.tail
    have hle := (h.key_of_mem ha).1
    have hfirst : p (key b) := by
      rw [hb]
      exact hclosed start (key a) le_rfl hle hp
    rw [takeWhile_cons_of_pos (p := fun b => p (key b)) hfirst]
    rcases mem_cons.mp ha with rfl | ha
    · exact mem_cons_self
    · apply mem_cons_of_mem
      apply ih htail (fun i j hi => hclosed i j (by omega)) ha

/-- Two numbered lists with the same keys are equal if equal keys belong to equal elements. -/
lemma ext (h' : Numbered key start l') (hlen : l.length = l'.length)
    (heq : ∀ a ∈ l, ∀ b ∈ l', key a = key b → a = b) : l = l' := by
  induction l generalizing start l' with
  | nil => exact (length_eq_zero_iff.mp hlen.symm).symm
  | cons a l ih =>
    cases l' with
    | nil => exact absurd hlen (Nat.succ_ne_zero _)
    | cons b l' =>
      obtain ⟨ha, htail⟩ := h.tail
      obtain ⟨hb, htail'⟩ := h'.tail
      rw [heq a mem_cons_self b mem_cons_self (ha.trans hb.symm)]
      congr 1
      apply ih htail htail' (Nat.succ_injective hlen)
      intro x hx y hy
      exact heq x (mem_cons_of_mem _ hx) y (mem_cons_of_mem _ hy)

end Numbered

/-- An element stands behind elements of all smaller keys. -/
def Climbing (key : α → ℕ) (start : ℕ) (l : List α) : Prop :=
  ∀ before a after, l = before ++ a :: after →
    ∀ i, start ≤ i → i < key a → ∃ b ∈ before, key b = i

lemma climbing_nil : Climbing key start [] := by
  intro before a after h
  exact absurd h.symm (append_ne_nil_of_right_ne_nil before (cons_ne_nil a after))

lemma Climbing.append_one {a : α} (h : Climbing key start l)
    (ha : ∀ i, start ≤ i → i < key a → ∃ b ∈ l, key b = i) : Climbing key start (l ++ [a]) := by
  intro before b after heq
  rcases eq_nil_or_concat after with rfl | ⟨after, c, rfl⟩
  · obtain ⟨rfl, hlast⟩ := append_inj' heq rfl
    obtain rfl : a = b := by simpa using hlast
    exact ha
  · rw [concat_eq_append, ← cons_append, ← append_assoc] at heq
    exact h before b after (append_inj_left' heq rfl)

end Lib
