import Mathlib.Order.Lattice
import Mathlib.Tactic.Common

namespace Lib

@[ext] structure Ballot (τ κ : Type) where
  term : τ
  vote : Option κ
  deriving DecidableEq

namespace Ballot

variable {τ κ : Type} [LinearOrder τ]

instance : LE (Ballot τ κ) where
  le a b := a.term < b.term ∨ a.term = b.term ∧ (a.vote = none ∨ a.vote = b.vote)

lemma le_def {a b : Ballot τ κ} :
    a ≤ b ↔ a.term < b.term ∨ a.term = b.term ∧ (a.vote = none ∨ a.vote = b.vote) := Iff.rfl

instance : Preorder (Ballot τ κ) where
  le_refl a := Or.inr ⟨rfl, Or.inr rfl⟩
  le_trans a b c hab hbc := by
    rw [le_def] at hab hbc ⊢
    rcases hab with hab | ⟨hab, hvote⟩
    · left
      rcases hbc with hbc | ⟨hbc, -⟩
      · exact hab.trans hbc
      · exact hbc ▸ hab
    · rcases hbc with hbc | ⟨hbc, hvote'⟩
      · exact Or.inl (hab ▸ hbc)
      · refine Or.inr ⟨hab.trans hbc, ?_⟩
        rcases hvote with hvote | hvote
        · exact Or.inl hvote
        · exact hvote ▸ hvote'

lemma le_of_lt {a b : Ballot τ κ} (h : a.term < b.term) : a ≤ b := Or.inl h

lemma le_of_term_le {a b : Ballot τ κ} (h : a.term ≤ b.term) (hvote : b.vote = a.vote) : a ≤ b := by
  rcases h.lt_or_eq with h | h
  · exact Or.inl h
  · exact Or.inr ⟨h, Or.inr hvote.symm⟩

end Ballot

@[ext] structure Cast (τ κ : Type) where
  term : τ
  candidate : κ
  deriving DecidableEq

namespace Cast

variable {τ κ : Type}

def ballot (v : Cast τ κ) : Ballot τ κ := ⟨v.term, some v.candidate⟩

/-- The votes name one candidate in each term. -/
def Consistent (votes : List (Cast τ κ)) : Prop :=
  ∀ v ∈ votes, ∀ w ∈ votes, v.term = w.term → v.candidate = w.candidate

instance [DecidableEq τ] [DecidableEq κ] (votes : List (Cast τ κ)) : Decidable (Consistent votes) :=
  inferInstanceAs
    (Decidable (∀ v ∈ votes, ∀ w ∈ votes, v.term = w.term → v.candidate = w.candidate))

lemma consistent_nil : Consistent ([] : List (Cast τ κ)) := by
  intro v hv
  cases hv

lemma candidate_eq_of_le [LinearOrder τ] {v w : Cast τ κ} (h : v.ballot ≤ w.ballot)
    (hterm : v.term = w.term) : v.candidate = w.candidate := by
  rcases h with h | ⟨-, h | h⟩
  · exact absurd hterm h.ne
  · cases h
  · exact Option.some.inj h

/-- Votes cast on a ballot keep the votes consistent when that ballot has developed from every vote
before. -/
lemma Consistent.append [LinearOrder τ] {votes cast : List (Cast τ κ)} (h : Consistent votes)
    {b : Ballot τ κ} (hle : ∀ v ∈ votes, v.ballot ≤ b) (hcast : ∀ v ∈ cast, v.ballot = b) :
    Consistent (votes ++ cast) := by
  intro v hv w hw hterm
  rw [List.mem_append] at hv hw
  rcases hv with hv | hv
  · rcases hw with hw | hw
    · exact h v hv w hw hterm
    · exact candidate_eq_of_le ((hcast w hw).symm ▸ hle v hv) hterm
  · rcases hw with hw | hw
    · exact (candidate_eq_of_le ((hcast v hv).symm ▸ hle w hw) hterm.symm).symm
    · exact candidate_eq_of_le ((hcast v hv).trans (hcast w hw).symm).le hterm

end Cast

end Lib
