import Mathlib.Data.List.Sort

namespace Lib

open List Function

variable {κ τ : Type} {m : κ → Option τ} {l : List (τ × κ)} {k : κ} {t : τ}

structure Mirrors (m : κ → Option τ) (l : List (τ × κ)) : Prop where
  nodup : l.Nodup
  mem_iff : ∀ t k, (t, k) ∈ l ↔ m k = some t

lemma mirrors_nil (hm : ∀ k, m k = none) : Mirrors m ([] : List (τ × κ)) :=
  ⟨nodup_nil, fun t k => by simp [hm k]⟩

section

variable (h : Mirrors m l)
include h

lemma Mirrors.not_mem (hk : m k = none) (t : τ) : (t, k) ∉ l := by
  rw [h.mem_iff, hk]
  nofun

lemma Mirrors.perm {l' : List (τ × κ)} (hl : l'.Perm l) : Mirrors m l' :=
  ⟨hl.nodup_iff.mpr h.nodup, fun t k => hl.mem_iff.trans (h.mem_iff t k)⟩

variable [DecidableEq κ]

lemma Mirrors.insert (r : τ × κ → τ × κ → Prop) [DecidableRel r] (hk : m k = none) (t : τ) :
    Mirrors (update m k (some t)) (l.orderedInsert r (t, k)) := by
  have hperm := perm_orderedInsert r (t, k) l
  refine ⟨hperm.nodup_iff.mpr (nodup_cons.mpr ⟨h.not_mem hk t, h.nodup⟩), fun u a => ?_⟩
  rw [hperm.mem_iff, mem_cons, h.mem_iff, update_apply]
  split
  case isTrue ha => simp [ha, hk, eq_comm]
  case isFalse ha => simp [ha]

variable [BEq (τ × κ)] [LawfulBEq (τ × κ)]

lemma Mirrors.erase (hk : m k = some t) : Mirrors (update m k none) (l.erase (t, k)) := by
  refine ⟨h.nodup.erase _, fun u a => ?_⟩
  rw [h.nodup.mem_erase_iff, h.mem_iff, update_apply, ne_eq]
  split
  case isTrue ha => simp +contextual [ha, hk, eq_comm]
  case isFalse ha => simp [ha]

lemma Mirrors.forget {rest : List (τ × κ)} (hsome : ∀ t, m k = some t → rest = l.erase (t, k))
    (hnone : m k = none → rest = l) : Mirrors (update m k none) rest := by
  cases hk : m k with
  | some t =>
    rw [hsome t hk]
    exact h.erase hk
  | none =>
    have hsame : update m k none = m := by rw [← hk, update_eq_self]
    rwa [hnone hk, hsame]

end

end Lib
