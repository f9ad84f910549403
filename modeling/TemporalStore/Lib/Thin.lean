import Mathlib.Data.List.Infix

namespace Lib

open List

variable {α β : Type} {P Q : α → Prop}

inductive Thinned (P : α → Prop) : List α → List α → Prop
  | nil : Thinned P [] []
  | keep {l r : List α} (a : α) : Thinned P l r → Thinned P (a :: l) (a :: r)
  | drop {l r : List α} {a : α} (h : P a) : Thinned P l r → Thinned P (a :: l) r

namespace Thinned

lemma refl (P : α → Prop) (l : List α) : Thinned P l l := by
  induction l with
  | nil => exact .nil
  | cons a l ih => exact .keep a ih

lemma of_forall {l : List α} (h : ∀ a ∈ l, P a) : Thinned P l [] := by
  induction l with
  | nil => exact .nil
  | cons a l ih =>
    exact .drop (h a mem_cons_self) (ih fun b hb => h b (mem_cons_of_mem a hb))

lemma sublist {l r : List α} (h : Thinned P l r) : r.Sublist l := by
  induction h with
  | nil => exact List.Sublist.refl []
  | keep a _ ih => exact ih.cons_cons a
  | drop _ _ ih => exact ih.cons _

lemma imp {l r : List α} (h : Thinned P l r) (hPQ : ∀ a, P a → Q a) : Thinned Q l r := by
  induction h with
  | nil => exact .nil
  | keep a _ ih => exact .keep a ih
  | drop ha _ ih => exact .drop (hPQ _ ha) ih

lemma append {l r l' r' : List α} (h : Thinned P l r) (h' : Thinned P l' r') :
    Thinned P (l ++ l') (r ++ r') := by
  induction h with
  | nil => exact h'
  | keep a _ ih => exact .keep a ih
  | drop ha _ ih => exact .drop ha ih

lemma mem {l r : List α} (h : Thinned P l r) {a : α} (ha : a ∈ l) (hP : ¬P a) : a ∈ r := by
  induction h with
  | nil => exact ha
  | keep b _ ih =>
    rcases mem_cons.mp ha with rfl | ha
    · exact mem_cons_self
    · exact mem_cons_of_mem b (ih ha)
  | drop hb _ ih =>
    rcases mem_cons.mp ha with rfl | ha
    · exact absurd hb hP
    · exact ih ha

lemma dropWhile {p : α → Bool} (h : ∀ a, p a = true → P a) (l : List α) :
    Thinned P l (l.dropWhile p) := by
  induction l with
  | nil => exact .nil
  | cons a l ih =>
    cases hp : p a with
    | true =>
      rw [dropWhile_cons_of_pos hp]
      exact .drop (h a hp) ih
    | false =>
      rw [dropWhile_cons_of_neg (by simp [hp])]
      exact refl P (a :: l)

lemma flatMap {f : β → List α} {l r : List β} (h : Thinned (fun b => ∀ a ∈ f b, P a) l r) :
    Thinned P (l.flatMap f) (r.flatMap f) := by
  induction h with
  | nil => exact .nil
  | keep b _ ih =>
    exact (refl P (f b)).append ih
  | drop hb _ ih =>
    exact (of_forall hb).append ih

end Thinned

end Lib
