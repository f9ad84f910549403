import Mathlib.Tactic.Common

namespace Lib

open List

variable {ε α γ : Type}

@[simp] lemma ok_bind (a : α) (f : α → Except ε γ) : (Except.ok a >>= f) = f a := rfl

@[simp] lemma error_bind (e : ε) (f : α → Except ε γ) : (Except.error e >>= f) = .error e := rfl

@[simp] lemma pure_eq_ok (a : α) : (pure a : Except ε α) = .ok a := rfl

@[simp] lemma map_ok (a : α) (f : α → γ) : (f <$> (Except.ok a : Except ε α)) = .ok (f a) := rfl

variable {f : α → Except ε γ}

lemma bind_eq_ok_iff {x : Except ε α} {c : γ} :
    (x >>= f) = .ok c ↔ ∃ a, x = .ok a ∧ f a = .ok c := by
  cases x <;> simp

lemma bind_eq_ok {x : Except ε α} {c : γ} (h : (x >>= f) = .ok c) : ∃ a, x = .ok a ∧ f a = .ok c :=
  bind_eq_ok_iff.mp h

variable {l : List α} {r : List γ}

lemma mapM_cons_eq_ok {a : α} (h : (a :: l).mapM f = .ok r) :
    ∃ c r', r = c :: r' ∧ f a = .ok c ∧ l.mapM f = .ok r' := by
  rw [mapM_cons] at h
  obtain ⟨c, hc, h⟩ := bind_eq_ok h
  obtain ⟨r', hr, h⟩ := bind_eq_ok h
  cases h
  exact ⟨c, r', rfl, hc, hr⟩

lemma cons_of_mapM_eq_ok {c : γ} (h : l.mapM f = .ok (c :: r)) :
    ∃ a l', l = a :: l' ∧ f a = .ok c ∧ l'.mapM f = .ok r := by
  cases l with
  | nil => cases h
  | cons a l =>
    obtain ⟨_, _, ⟨⟩, hc, hr⟩ := mapM_cons_eq_ok h
    exact ⟨a, l, rfl, hc, hr⟩

lemma exists_of_mapM_eq_ok {a : α} (h : l.mapM f = .ok r) (ha : a ∈ l) : ∃ c ∈ r, f a = .ok c := by
  induction l generalizing r with
  | nil => simp at ha
  | cons b l ih =>
    obtain ⟨c, r', rfl, hc, hr⟩ := mapM_cons_eq_ok h
    rcases mem_cons.mp ha with rfl | ha
    · exact ⟨c, mem_cons_self, hc⟩
    · obtain ⟨d, hd, hfd⟩ := ih hr ha
      exact ⟨d, mem_cons_of_mem c hd, hfd⟩

lemma length_of_mapM_eq_ok (h : l.mapM f = .ok r) : r.length = l.length := by
  induction l generalizing r with
  | nil =>
    cases h
    rfl
  | cons a l ih =>
    obtain ⟨c, r', rfl, -, hr⟩ := mapM_cons_eq_ok h
    rw [length_cons, length_cons, ih hr]

lemma mapM_congr {g : α → Except ε γ} (h : ∀ a ∈ l, f a = g a) : l.mapM f = l.mapM g := by
  induction l with
  | nil => rfl
  | cons a l ih =>
    rw [mapM_cons, mapM_cons, h a mem_cons_self, ih fun b hb => h b (mem_cons_of_mem a hb)]

lemma mapM_eq_ok {g : α → γ} (h : ∀ a ∈ l, f a = .ok (g a)) : l.mapM f = .ok (l.map g) := by
  induction l with
  | nil => rfl
  | cons a l ih =>
    rw [mapM_cons, h a mem_cons_self, ih fun b hb => h b (mem_cons_of_mem a hb)]
    rfl

lemma exists_mapM_eq_ok (h : ∀ a ∈ l, ∃ c, f a = .ok c) : ∃ r, l.mapM f = .ok r := by
  induction l with
  | nil => exact ⟨[], rfl⟩
  | cons a l ih =>
    obtain ⟨c, hc⟩ := h a mem_cons_self
    obtain ⟨r, hr⟩ := ih fun b hb => h b (mem_cons_of_mem a hb)
    exact ⟨c :: r, by rw [mapM_cons, hc, hr]; rfl⟩

lemma mem_of_mapM_eq_ok {c : γ} (h : l.mapM f = .ok r) (hc : c ∈ r) : ∃ a ∈ l, f a = .ok c := by
  induction r generalizing l with
  | nil => simp at hc
  | cons d r ih =>
    obtain ⟨a, l', rfl, ha, hl'⟩ := cons_of_mapM_eq_ok h
    rcases mem_cons.mp hc with rfl | hc
    · exact ⟨a, mem_cons_self, ha⟩
    · obtain ⟨b, hb, hfb⟩ := ih hl' hc
      exact ⟨b, mem_cons_of_mem a hb, hfb⟩

lemma mapM_of_mapM_eq_ok {ε' α' : Type} {g : γ → Except ε' α'} {h : α → α'}
    (hl : l.mapM f = .ok r) (hg : ∀ a ∈ l, ∀ c, f a = .ok c → g c = .ok (h a)) :
    r.mapM g = .ok (l.map h) := by
  induction l generalizing r with
  | nil =>
    cases hl
    rfl
  | cons a l ih =>
    obtain ⟨c, r', rfl, hc, hr⟩ := mapM_cons_eq_ok hl
    rw [mapM_cons, hg a mem_cons_self c hc, ih hr fun b hb => hg b (mem_cons_of_mem a hb)]
    rfl

lemma foldlM_eq_ok {σ : Type} {f : σ → α → Except ε σ} {g : σ → α → σ}
    (h : ∀ a ∈ l, ∀ s, f s a = .ok (g s a)) (s : σ) : l.foldlM f s = .ok (l.foldl g s) := by
  induction l generalizing s with
  | nil => rfl
  | cons a l ih =>
    rw [foldlM_cons, h a mem_cons_self]
    exact ih (fun b hb => h b (mem_cons_of_mem a hb)) _

lemma foldlM_invariant {σ : Type} {f : σ → α → Except ε σ} (P : List α → σ → Prop)
    (hstep : ∀ done a s s', P done s → f s a = .ok s' → P (done ++ [a]) s') {s s' : σ} (h0 : P [] s)
    (h : l.foldlM f s = .ok s') : P l s' := by
  suffices hall : ∀ done s, P done s → l.foldlM f s = .ok s' → P (done ++ l) s' from
    hall [] s h0 h
  clear h0 h s
  induction l with
  | nil =>
    intro done s hs h
    cases h
    rw [append_nil]
    exact hs
  | cons a l ih =>
    intro done s hs h
    obtain ⟨t, ht, h⟩ := bind_eq_ok h
    have := ih (done ++ [a]) t (hstep done a s t hs ht) h
    rwa [append_assoc, singleton_append] at this

end Lib
