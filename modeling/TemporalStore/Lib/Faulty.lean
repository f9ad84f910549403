import Mathlib.Tactic.Common

namespace Lib

open List

variable {σ : Type}

/-- How one attempt of an operation ends. -/
inductive Attempt where
  | done
  /-- It fails and has changed nothing. -/
  | lost
  /-- It is reported as failed, but took effect. -/
  | landed
  /-- It fails after part of its effect. -/
  | torn
  /-- The process stops in front of it. -/
  | stop
  deriving DecidableEq

inductive Outcome where
  | ok
  | error
  | stopped
  deriving DecidableEq

/-- An operation: how often it is tried, its effect, and a part of its effect. An operation that is
never tried is a refusal. -/
structure Operation (σ : Type) where
  attempts : ℕ
  full : σ → σ
  part : σ → σ

/-- Tries an operation until an attempt is done. Attempts past the end of the list are done. -/
def perform (full part : σ → σ) : ℕ → List Attempt → σ → Outcome × σ
  | 0, _, s => (.error, s)
  | _ + 1, [], s => (.ok, full s)
  | _ + 1, .done :: _, s => (.ok, full s)
  | _ + 1, .stop :: _, s => (.stopped, s)
  | n + 1, .lost :: rest, s => perform full part n rest s
  | n + 1, .landed :: rest, s => perform full part n rest (full s)
  | n + 1, .torn :: rest, s => perform full part n rest (part s)

/-- Performs operations one after another, up to the first that does not succeed. `faults` holds
the attempts of each operation. -/
def performAll : List (Operation σ) → List (List Attempt) → σ → Outcome × σ
  | [], _, s => (.ok, s)
  | op :: ops, faults, s =>
    match perform op.full op.part op.attempts (faults.headD []) s with
    | (.ok, s') => performAll ops faults.tail s'
    | (outcome, s') => (outcome, s')

/-- No attempt leaves a part of its effect. -/
def Untorn (faults : List (List Attempt)) : Prop := ∀ attempts ∈ faults, Attempt.torn ∉ attempts

/-- Within `n` attempts the operation is done, or the process stops. -/
def Answered (n : ℕ) (attempts : List Attempt) : Prop :=
  attempts.length < n ∨ ∃ a ∈ attempts.take n, a = .done ∨ a = .stop

/-- Every operation of the sequence is answered, so none of them is a refusal. -/
def AnsweredAll : List (Operation σ) → List (List Attempt) → Prop
  | [], _ => True
  | op :: ops, faults => Answered op.attempts (faults.headD []) ∧ AnsweredAll ops faults.tail

lemma Untorn.head {faults : List (List Attempt)} (h : Untorn faults) :
    Attempt.torn ∉ faults.headD [] := by
  cases faults with
  | nil => simp
  | cons attempts faults => exact h attempts mem_cons_self

section Perform

variable {full : σ → σ} {P : σ → Prop}

/-- What an effect keeps, an operation keeps; if the operation succeeds, its effect came last. -/
lemma perform_spec (part : σ → σ) (hfull : ∀ s, P s → P (full s)) (n : ℕ) {attempts : List Attempt}
    (htorn : Attempt.torn ∉ attempts) {s : σ} (hs : P s) :
    P (perform full part n attempts s).2 ∧ ((perform full part n attempts s).1 = .ok →
      ∃ s', P s' ∧ (perform full part n attempts s).2 = full s') := by
  induction attempts generalizing n s with
  | nil =>
    cases n with
    | zero => exact ⟨hs, by simp [perform]⟩
    | succ n => exact ⟨hfull s hs, fun _ => ⟨s, hs, rfl⟩⟩
  | cons a attempts ih =>
    rw [mem_cons, not_or] at htorn
    cases n with
    | zero => exact ⟨hs, by simp [perform]⟩
    | succ n =>
      cases a with
      | done => exact ⟨hfull s hs, fun _ => ⟨s, hs, rfl⟩⟩
      | lost => exact ih n htorn.2 hs
      | landed => exact ih n htorn.2 (hfull s hs)
      | torn => exact absurd rfl htorn.1
      | stop => exact ⟨hs, by simp [perform]⟩

lemma perform_ne_error (full part : σ → σ) {n : ℕ} {attempts : List Attempt}
    (h : Answered n attempts) (s : σ) : (perform full part n attempts s).1 ≠ .error := by
  induction attempts generalizing n s with
  | nil =>
    cases n with
    | zero => simp [Answered] at h
    | succ n => simp [perform]
  | cons a attempts ih =>
    cases n with
    | zero => simp [Answered] at h
    | succ n =>
      have hrest : a ≠ .done → a ≠ .stop → Answered n attempts := by
        intro hdone hstop
        rcases h with hlen | ⟨b, hb, hans⟩
        · exact .inl (by simpa using hlen)
        · rw [take_succ_cons, mem_cons] at hb
          rcases hb with rfl | hb
          · exact absurd hans (by simp [hdone, hstop])
          · exact .inr ⟨b, hb, hans⟩
      cases a with
      | done => simp [perform]
      | lost => exact ih (hrest (by decide) (by decide)) s
      | landed => exact ih (hrest (by decide) (by decide)) (full s)
      | torn => exact ih (hrest (by decide) (by decide)) (part s)
      | stop => simp [perform]

end Perform

section PerformAll

variable {op : Operation σ} {ops ops' : List (Operation σ)} {P Q R I : σ → Prop}

lemma performAll_append (ops ops' : List (Operation σ)) (faults : List (List Attempt)) (s : σ) :
    performAll (ops ++ ops') faults s = match performAll ops faults s with
      | (.ok, s') => performAll ops' (faults.drop ops.length) s'
      | (outcome, s') => (outcome, s') := by
  induction ops generalizing faults s with
  | nil => rfl
  | cons op ops ih =>
    rw [cons_append, performAll, performAll]
    cases perform op.full op.part op.attempts (faults.headD []) s with
    | mk outcome s' =>
      cases outcome with
      | ok =>
        simp only [ih]
        rw [length_cons, Nat.add_comm, ← drop_drop, drop_one]
      | error => rfl
      | stopped => rfl

lemma performAll_ne_error {faults : List (List Attempt)} {s : σ} (h : AnsweredAll ops faults) :
    (performAll ops faults s).1 ≠ .error := by
  induction ops generalizing faults s with
  | nil => simp [performAll]
  | cons op ops ih =>
    have hne := perform_ne_error op.full op.part h.1 s
    rw [performAll]
    cases hperform : perform op.full op.part op.attempts (faults.headD []) s with
    | mk outcome s' =>
      rw [hperform] at hne
      cases outcome with
      | ok => exact ih h.2
      | error => exact absurd rfl hne
      | stopped => simp

lemma performAll_nil (ops : List (Operation σ)) (s : σ) : (performAll ops [] s).1 ≠ .stopped ∧
      ((∀ op ∈ ops, 0 < op.attempts) → (performAll ops [] s).1 = .ok) := by
  induction ops generalizing s with
  | nil => simp [performAll]
  | cons op ops ih =>
    rw [performAll]
    cases hatt : op.attempts with
    | zero =>
      refine ⟨by simp [perform], fun h => ?_⟩
      have := h op mem_cons_self
      omega
    | succ n =>
      obtain ⟨hstopped, hok⟩ := ih (op.full s)
      exact ⟨hstopped, fun h => hok fun o ho => h o (mem_cons_of_mem op ho)⟩

/-- From `P` the operations leave `I` wherever they end, and `Q` if they all succeed. -/
def Leads (P : σ → Prop) (ops : List (Operation σ)) (I Q : σ → Prop) : Prop :=
  ∀ faults s, Untorn faults → P s →
    I (performAll ops faults s).2 ∧
      ((performAll ops faults s).1 = .ok → Q (performAll ops faults s).2)

lemma leads_nil (h : ∀ s, P s → I s) : Leads P [] I P :=
  fun _ s _ hs => ⟨h s hs, fun _ => hs⟩

lemma Leads.append (h : Leads P ops I Q) (h' : Leads Q ops' I R) : Leads P (ops ++ ops') I R := by
  intro faults s htorn hs
  obtain ⟨hcrash, hdone⟩ := h faults s htorn hs
  rw [performAll_append]
  cases hrun : performAll ops faults s with
  | mk outcome s' =>
    rw [hrun] at hcrash hdone
    cases outcome with
    | ok =>
      exact h' _ s' (fun attempts hmem => htorn attempts (mem_of_mem_drop hmem)) (hdone rfl)
    | error => exact ⟨hcrash, nofun⟩
    | stopped => exact ⟨hcrash, nofun⟩

lemma leads_op (J : σ → Prop) (hP : ∀ s, P s → J s) (hfull : ∀ s, J s → J (op.full s))
    (hI : ∀ s, J s → I s) (hQ : ∀ s, J s → Q (op.full s)) : Leads P [op] I Q := by
  intro faults s htorn hs
  obtain ⟨hkeep, hlast⟩ := perform_spec op.part hfull op.attempts htorn.head (hP s hs)
  rw [performAll]
  cases hperform : perform op.full op.part op.attempts (faults.headD []) s with
  | mk outcome s' =>
    rw [hperform] at hkeep hlast
    cases outcome with
    | ok =>
      obtain ⟨s'', hs'', heq⟩ := hlast rfl
      change s' = op.full s'' at heq
      rw [heq]
      exact ⟨hI _ (hfull _ hs''), fun _ => hQ _ hs''⟩
    | error => exact ⟨hI _ hkeep, nofun⟩
    | stopped => exact ⟨hI _ hkeep, nofun⟩

lemma leads_refusal (h : op.attempts = 0) (hI : ∀ s, P s → I s) : Leads P [op] I Q := by
  intro faults s _ hs
  rw [performAll, h]
  exact ⟨hI s hs, nofun⟩

lemma Leads.mono {P' I' Q' : σ → Prop} (h : Leads P ops I Q) (hP : ∀ s, P' s → P s)
    (hI : ∀ s, I s → I' s) (hQ : ∀ s, Q s → Q' s) : Leads P' ops I' Q' := by
  intro faults s htorn hs
  obtain ⟨hcrash, hdone⟩ := h faults s htorn (hP s hs)
  exact ⟨hI _ hcrash, fun hok => hQ _ (hdone hok)⟩

end PerformAll

end Lib
