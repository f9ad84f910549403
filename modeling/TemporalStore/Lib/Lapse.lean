import Mathlib.Data.List.Pairwise
import Mathlib.Tactic.Common

namespace Lib

/-- When the entries lapse. -/
abbrev Ledger (κ : Type) := κ → Option ℕ

namespace Ledger

variable {κ : Type}

variable (m : Ledger κ) (k : κ) (now : ℕ)

def Live : Prop := ∃ expiry, m k = some expiry ∧ now < expiry

instance (m : Ledger κ) (k : κ) (now : ℕ) : Decidable (m.Live k now) :=
  match h : m k with
  | none => isFalse fun ⟨_, he, _⟩ => by rw [h] at he; cases he
  | some expiry =>
    if hlt : now < expiry then isTrue ⟨expiry, h, hlt⟩
    else isFalse fun ⟨_, he, hlt'⟩ => by
      rw [h] at he
      cases he
      exact hlt hlt'

lemma Live.mono {m : Ledger κ} {k : κ} {now now' : ℕ} (h : m.Live k now') (hle : now ≤ now') :
    m.Live k now := by
  obtain ⟨expiry, he, hlt⟩ := h
  exact ⟨expiry, he, by omega⟩

/-- No check from `now` on can tell the two apart. -/
def AgreeFrom (m m' : Ledger κ) : Prop := ∀ k t, now ≤ t → (m.Live k t ↔ m'.Live k t)

lemma AgreeFrom.refl (m : Ledger κ) : AgreeFrom now m m := fun _ _ _ => Iff.rfl

lemma AgreeFrom.trans {now : ℕ} {m m' m'' : Ledger κ} (h : AgreeFrom now m m')
    (h' : AgreeFrom now m' m'') : AgreeFrom now m m'' := fun k t ht => (h k t ht).trans (h' k t ht)

lemma AgreeFrom.mono {now now' : ℕ} {m m' : Ledger κ} (h : AgreeFrom now m m')
    (hle : now ≤ now') : AgreeFrom now' m m' := fun k t ht => h k t (Nat.le_trans hle ht)

variable [DecidableEq κ]

def enter (expiry : ℕ) : Ledger κ := Function.update m k (some expiry)

lemma live_enter_self (expiry now : ℕ) : (m.enter k expiry).Live k now ↔ now < expiry := by
  unfold Live enter
  rw [Function.update_self]
  constructor
  · rintro ⟨e, he, hlt⟩
    cases he
    exact hlt
  · intro hlt
    exact ⟨expiry, rfl, hlt⟩

lemma live_enter_of_ne {k j : κ} (hj : j ≠ k) (expiry now : ℕ) :
    (m.enter k expiry).Live j now ↔ m.Live j now := by
  unfold Live enter
  rw [Function.update_of_ne hj]

lemma AgreeFrom.enter {now : ℕ} {m m' : Ledger κ} (h : AgreeFrom now m m') (k : κ) (expiry : ℕ) :
    AgreeFrom now (m.enter k expiry) (m'.enter k expiry) := by
  intro j t ht
  by_cases hj : j = k
  · subst hj
    rw [live_enter_self, live_enter_self]
  · rw [live_enter_of_ne m hj, live_enter_of_ne m' hj]
    exact h j t ht

/-- Enter the key unless it is live. -/
def check (expiry : ℕ) : Ledger κ :=
  if m.Live k now then m else m.enter k expiry

lemma live_check_of_ne {k j : κ} (hj : j ≠ k) (now expiry t : ℕ) :
    (m.check k now expiry).Live j t ↔ m.Live j t := by
  unfold Ledger.check
  split
  · rfl
  · exact live_enter_of_ne m hj expiry t

lemma AgreeFrom.check {now : ℕ} {m m' : Ledger κ} (h : AgreeFrom now m m') (k : κ)
    (expiry : ℕ) : AgreeFrom now (m.check k now expiry) (m'.check k now expiry) := by
  unfold Ledger.check
  by_cases hlive : m.Live k now
  · rw [if_pos hlive, if_pos ((h k now (Nat.le_refl now)).mp hlive)]
    exact h
  · rw [if_neg hlive, if_neg fun h' => hlive ((h k now (Nat.le_refl now)).mpr h')]
    exact h.enter k expiry

/-- What a sequence of checks, each with its instant, finds live. -/
def answers (window : ℕ) : Ledger κ → List (ℕ × κ) → List Bool
  | _, [] => []
  | m, (now, k) :: checks =>
    decide (m.Live k now) :: answers window (m.check k now (now + window)) checks

lemma agree_at_check {m m' : Ledger κ} {k : κ} {now expiry : ℕ}
    (hk : m.Live k now ↔ m'.Live k now) {j : κ} {t : ℕ} (ht : now ≤ t) :
    ((m.check k now expiry).Live j t ↔ (m'.check k now expiry).Live j t) ↔
      (m.Live j t ↔ m'.Live j t) := by
  unfold Ledger.check
  by_cases hlive : m.Live k now
  · rw [if_pos hlive, if_pos (hk.mp hlive)]
  · have hlive' : ¬m'.Live k now := fun h => hlive (hk.mpr h)
    rw [if_neg hlive, if_neg hlive']
    by_cases hj : j = k
    · subst hj
      rw [live_enter_self, live_enter_self]
      -- neither was live at the check, and so neither is later
      exact iff_of_true Iff.rfl
        (iff_of_false (fun h => hlive (h.mono ht)) (fun h => hlive' (h.mono ht)))
    · rw [live_enter_of_ne m hj, live_enter_of_ne m' hj]

/-- Two ledgers answer a sequence of checks alike just when they agree at each of its checks. -/
lemma answers_eq_iff {window : ℕ} {checks : List (ℕ × κ)}
    (hsort : checks.Pairwise fun c d => c.1 ≤ d.1) (m m' : Ledger κ) :
    answers window m checks = answers window m' checks ↔
      ∀ c ∈ checks, (m.Live c.2 c.1 ↔ m'.Live c.2 c.1) := by
  induction checks generalizing m m' with
  | nil => simp [answers]
  | cons c checks ih =>
    obtain ⟨hlater, hsort⟩ := List.pairwise_cons.mp hsort
    rw [answers, answers, List.cons.injEq, decide_eq_decide, List.forall_mem_cons, ih hsort]
    apply and_congr_right
    intro hk
    apply forall₂_congr
    intro c hc
    exact agree_at_check hk (hlater c hc)

end Ledger

end Lib
