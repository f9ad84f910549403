import TemporalStore.Shard.Deadlines

/-! # Rounds of the sweep (`engine/recovery_sweep_compact.rs`) -/

namespace TemporalStore.Shard

open Lib List Function

namespace ShardState

/-- What is left of a shard when records and deadlines are removed. -/
structure Remains (s s' : ShardState) : Prop where
  records : ∀ key, s'.records key = s.records key ∨ s'.records key = Record.empty
  view : s'.expiryByDeadline.Sublist s.expiryByDeadline
  inOrder : s.InOrder → s'.InOrder

lemma Remains.refl (s : ShardState) : Remains s s := ⟨fun _ => .inl rfl, .refl _, id⟩

variable {s s' s'' : ShardState}

lemma Remains.trans (h : Remains s s') (h' : Remains s' s'') : Remains s s'' where
  records key := by
    rcases h'.records key with hkey | hkey
    · rw [hkey]
      exact h.records key
    · exact .inr hkey
  view := h'.view.trans h.view
  inOrder := h'.inOrder ∘ h.inOrder

lemma Remains.recordExists (h : Remains s s') {key : Key} (hexists : s'.recordExists key) :
    s.recordExists key := by
  obtain ⟨k, hk, hpres⟩ := any_eq_true.mp hexists
  refine any_eq_true.mpr ⟨k, hk, ?_⟩
  unfold recordExistsExact at hpres ⊢
  rcases h.records k with hsame | hgone
  · rwa [← hsame]
  · rw [hgone] at hpres
    cases hpres

lemma remains_clearExpiry (s : ShardState) (key : Key) : Remains s (s.clearExpiry key).1 := by
  refine ⟨fun k => .inl ?_, ?_, fun h => h.clearExpiry key⟩ <;> unfold clearExpiry <;> split
  · rfl
  · rfl
  · exact erase_sublist
  · exact .refl _

lemma records_deleteRecordExact (s : ShardState) (key : Key) :
    (s.deleteRecordExact key).1.records = update s.records key Record.empty := by
  have hsame : (s.clearExpiry key).1.records = s.records := by
    unfold clearExpiry
    split <;> rfl
  exact congrArg (fun records => update records key Record.empty) hsame

lemma remains_deleteRecordExact (s : ShardState) (key : Key) :
    Remains s (s.deleteRecordExact key).1 where
  records k := by
    rw [records_deleteRecordExact, update_apply]
    split
    · exact .inr rfl
    · exact .inl rfl
  view := (s.remains_clearExpiry key).view
  inOrder h := ⟨(h.clearExpiry key).mirrors, (h.clearExpiry key).sorted⟩

lemma erodes_remains : Erodes Remains :=
  ⟨Remains.refl, Remains.trans, remains_clearExpiry, remains_deleteRecordExact⟩

lemma records_deleteEach (keys : List Key) (s : ShardState) (k : Key) :
    (s.deleteEach (fun _ _ => true) keys).1.records k =
      if k ∈ keys then Record.empty else s.records k := by
  induction keys generalizing s with
  | nil => rfl
  | cons key keys ih =>
    have hstep : (s.deleteEach (fun _ _ => true) (key :: keys)).1 =
        ((s.deleteRecordExact key).1.deleteEach (fun _ _ => true) keys).1 := rfl
    rw [hstep, ih, records_deleteRecordExact]
    by_cases hk : k = key <;> simp [hk]

lemma recordExists_deleteRecord (s : ShardState) (key : Key) :
    (s.deleteRecord key).1.recordExists key = false := by
  refine any_eq_false.mpr fun k hk => ?_
  unfold recordExistsExact deleteRecord
  rw [records_deleteEach, if_pos hk]
  decide

lemma records_deleteRecord_of_absent {key : Key} (h : s.recordExists key = false) :
    (s.deleteRecord key).1.records = s.records := by
  funext k
  unfold deleteRecord
  rw [records_deleteEach]
  split
  case isTrue hk =>
    have habs : (s.records k).present = false := by
      simpa [recordExistsExact] using any_eq_false.mp h k hk
    simp only [Record.present, Bool.or_eq_false_iff, Option.isSome_eq_false_iff,
      Option.isNone_iff_eq_none] at habs
    ext1 <;> simp [Record.empty, habs]
  case isFalse => rfl

lemma records_sweepCold (now : ℕ) (load : Bool) {due : List (Key × ℕ)}
    (h : ∀ x ∈ due, s.recordExists x.1 = false) :
    (s.sweepCold now load due).records = s.records := by
  induction due generalizing s with
  | nil => rfl
  | cons x due ih =>
    obtain ⟨hx, hdue⟩ := forall_mem_cons.mp h
    have hdeleted := records_deleteRecord_of_absent hx
    obtain ⟨next, hnext, hrecs⟩ : ∃ next : ShardState, s.sweepCold now load (x :: due) =
        next.sweepCold now load due ∧ next.records = s.records := by
      refine ⟨_, rfl, ?_⟩
      dsimp only
      split
      · split
        · exact hdeleted
        · exact Eq.trans (by unfold clearExpiry; split <;> rfl) hdeleted
      · rfl
    rw [hnext, ih, hrecs]
    intro y hy
    unfold recordExists recordExistsExact
    rw [hrecs]
    exact hdue y hy

/-- A record of the key is present and its deadline has passed. -/
def Due (s : ShardState) (now : ℕ) (key : Key) : Prop := s.expired now key ∧ s.recordExists key

/-- How many deadlines a round reads at most for each of its windows. -/
def ShardExpirySweepRequest.scanBudget (request : ShardExpirySweepRequest) : ℕ :=
  expiryScanBudget (max request.maxHotBucketsPerRound request.maxColdBucketsPerRound)

/-- Among the deadlines, those of due records. -/
def dueAmong (s : ShardState) (now : ℕ) (deadlines : List (ℕ × Key)) : List (ℕ × Key) :=
  deadlines.filter fun x => decide (x.1 ≤ now) && s.recordExists x.2

/-- A round removes a due record if there is one. -/
def SweepAdvances (s : ShardState) (now : ℕ) (request : ShardExpirySweepRequest) : Prop :=
  (∃ key, s.Due now key) →
    ∃ key, s.Due now key ∧ (s.sweepExpiredRecordsWithRequest now request).recordExists key = false

/-- One of the deadlines that the budget lets a round read is of a due record, if there is one. -/
def DueWithinBudget (s : ShardState) (now : ℕ) (request : ShardExpirySweepRequest) : Prop :=
  (∃ key, s.Due now key) →
    ∃ x ∈ s.expiryByDeadline.take request.scanBudget, x.1 ≤ now ∧ s.recordExists x.2

lemma mem_dueAmong {now : ℕ} {deadlines : List (ℕ × Key)} {x : ℕ × Key} :
    x ∈ s.dueAmong now deadlines ↔ x ∈ deadlines ∧ x.1 ≤ now ∧ s.recordExists x.2 := by
  simp [dueAmong, mem_filter]

lemma keep_of_mem_dueWindow {now limit scanBudget selected walked : ℕ} {keep : Key → Bool}
    {view : List (ℕ × Key)} {x : Key × ℕ}
    (hx : x ∈ dueWindow now limit scanBudget keep view selected walked) : keep x.1 := by
  rw [dueWindow_eq, upTo] at hx
  obtain ⟨y, hy, rfl⟩ := mem_map.mp hx
  split at hy
  · exact (mem_filter.mp hy).2
  · exact (mem_filter.mp (mem_of_mem_take hy)).2

variable {now : ℕ} {request : ShardExpirySweepRequest}

section

variable (h : s.InOrder)
include h

lemma InOrder.due_iff {key : Key} :
    s.Due now key ↔ ∃ t, (t, key) ∈ s.dueAmong now s.expiryByDeadline := by
  simp only [Due, mem_dueAmong, h.mirrors.mem_iff, expired, Option.any_eq_true, decide_eq_true_eq,
    ← exists_and_right, and_assoc]

section

variable (hhot : 0 < request.maxHotBucketsPerRound)
include hhot

lemma InOrder.sweep_eq : s.sweepExpiredRecordsWithRequest now request =
    (s.sweepHot now (((s.dueAmong now (s.expiryByDeadline.take request.scanBudget)).take
      request.maxHotBucketsPerRound).map Prod.swap)).sweepCold now request.loadColdBuckets
        (dueWindow now request.maxColdBucketsPerRound request.scanBudget
          (fun key => !s.recordExists key) s.expiryByDeadline 0 0) := by
  have hbudget : request.scanBudget ≠ 0 := by
    unfold ShardExpirySweepRequest.scanBudget expiryScanBudget
    split <;> omega
  have hwin : dueWindow now request.maxHotBucketsPerRound request.scanBudget s.recordExists
      s.expiryByDeadline 0 0 = ((s.dueAmong now (s.expiryByDeadline.take request.scanBudget)).take
        request.maxHotBucketsPerRound).map Prod.swap := by
    rw [dueWindow_eq, upTo, upTo, if_neg hhot.ne', if_neg hbudget, Nat.sub_zero, Nat.sub_zero,
      h.takeWhile_due, filter_filter]
    simp only [Bool.and_comm, dueAmong]
  exact congrArg (fun hot => sweepCold (s.sweepHot now hot) ..) hwin

lemma InOrder.sweepAdvances (hreach : s.DueWithinBudget now request) :
    s.SweepAdvances now request := by
  intro hdue
  obtain ⟨x, hx, hpassed, hexists⟩ := hreach hdue
  obtain ⟨y, rest, heq⟩ := exists_cons_of_ne_nil
    (ne_nil_of_mem (mem_dueAmong.mpr ⟨hx, hpassed, hexists⟩))
  obtain ⟨hy, hle, hpres⟩ := mem_dueAmong.mp (heq ▸ mem_cons_self : y ∈ _)
  refine ⟨y.2, h.due_iff.mpr ⟨y.1, mem_dueAmong.mpr ⟨mem_of_mem_take hy, hle, hpres⟩⟩, ?_⟩
  have hremains : Remains (s.deleteRecord y.2).1
      (s.sweepExpiredRecordsWithRequest now request) := by
    obtain ⟨n, hn⟩ := Nat.exists_eq_add_of_lt hhot
    rw [h.sweep_eq hhot, heq, hn, take_succ_cons, map_cons, sweepHot, Prod.snd_swap, if_pos hle]
    exact (erodes_remains.sweepHot ..).trans (erodes_remains.sweepCold ..)
  by_contra hleft
  have hback := hremains.recordExists (by simpa using hleft)
  rw [recordExists_deleteRecord] at hback
  cases hback

lemma InOrder.dueWithinBudget (hadv : s.SweepAdvances now request) :
    s.DueWithinBudget now request := by
  intro hdue
  by_contra hnone
  have hempty : s.dueAmong now (s.expiryByDeadline.take request.scanBudget) = [] := by
    refine eq_nil_iff_forall_not_mem.mpr fun x hx => hnone ?_
    exact ⟨x, mem_dueAmong.mp hx⟩
  obtain ⟨key, ⟨-, hpres⟩, hrem⟩ := hadv hdue
  have hrecs : (s.sweepExpiredRecordsWithRequest now request).records = s.records := by
    rw [h.sweep_eq hhot, hempty, take_nil, map_nil, sweepHot]
    refine records_sweepCold _ _ fun x hx => ?_
    simpa using keep_of_mem_dueWindow hx
  unfold recordExists recordExistsExact at hrem hpres
  rw [hrecs, hpres] at hrem
  cases hrem

end

lemma InOrder.length_dueAmong_sweep (hadv : s.SweepAdvances now request)
    (hdue : ∃ key, s.Due now key) : ((s.sweepExpiredRecordsWithRequest now request).dueAmong now
      (s.sweepExpiredRecordsWithRequest now request).expiryByDeadline).length <
        (s.dueAmong now s.expiryByDeadline).length := by
  obtain ⟨key, hkey, hrem⟩ := hadv hdue
  have hremains := erodes_remains.sweep s now request
  have hsub : ((s.sweepExpiredRecordsWithRequest now request).dueAmong now
      (s.sweepExpiredRecordsWithRequest now request).expiryByDeadline).Sublist
        (s.dueAmong now s.expiryByDeadline) := by
    refine (monotone_filter_right _ fun x hx => ?_).trans (hremains.view.filter _)
    simp only [Bool.and_eq_true] at hx ⊢
    exact ⟨hx.1, hremains.recordExists hx.2⟩
  refine lt_of_le_of_ne hsub.length_le fun heq => ?_
  obtain ⟨t, ht⟩ := h.due_iff.mp hkey
  rw [← hsub.eq_of_length heq, mem_dueAmong, hrem] at ht
  exact absurd ht.2.2 Bool.false_ne_true

end

/-- A round removes a due record just when one is within its budget, and rounds that do so leave no
due record in the end. -/
theorem sweepAdvances_iff (h : s.InOrder) (hhot : 0 < request.maxHotBucketsPerRound) :
    (s.SweepAdvances now request ↔ s.DueWithinBudget now request) ∧
    ((∀ n, ((fun s => sweepExpiredRecordsWithRequest s now request)^[n] s).DueWithinBudget now
        request) → ∃ n, ∀ key,
        ¬((fun s => sweepExpiredRecordsWithRequest s now request)^[n] s).Due now key) := by
  refine ⟨⟨h.dueWithinBudget hhot, h.sweepAdvances hhot⟩, fun hreach => ?_⟩
  obtain ⟨count, hcount⟩ : ∃ count, (s.dueAmong now s.expiryByDeadline).length = count := ⟨_, rfl⟩
  induction count using Nat.strong_induction_on generalizing s with
  | _ count ih =>
    by_cases hdue : ∃ key, s.Due now key
    · have hfewer := h.length_dueAmong_sweep (h.sweepAdvances hhot (hreach 0)) hdue
      obtain ⟨n, hn⟩ := ih _ (hcount ▸ hfewer) ((erodes_remains.sweep s now request).inOrder h)
        (fun n => hreach (n + 1)) rfl
      exact ⟨n + 1, hn⟩
    · exact ⟨0, not_exists.mp hdue⟩

theorem sweepAdvances_oneString : ∃ s : ShardState, s.InOrder ∧ s.Due 10 [64] ∧
    SweepAdvances s 10 ⟨1, 1, false⟩ :=
  have hnone : InOrder (putString .empty [64] []) := ⟨mirrors_nil fun _ => rfl, Pairwise.nil⟩
  ⟨(stringSetEx .empty 0 [64] [] 6).shard, hnone.setExpiry [64] 6, ⟨by decide, by decide⟩,
    (sweepAdvances_iff (hnone.setExpiry [64] 6) Nat.one_pos).1.mpr fun _ =>
      ⟨(6, [64]), by decide, by decide, by decide⟩⟩

lemma sweepCold_false (now : ℕ) (due : List (Key × ℕ)) (s : ShardState) :
    s.sweepCold now false due = s := by
  induction due with
  | nil => rfl
  | cons x due ih => simpa [sweepCold] using ih

/-- Without a due record within the budget, rounds that do not load cold keys change nothing. -/
lemma sweep_stalls (hcold : request.loadColdBuckets = false)
    (hhot : dueWindow now request.maxHotBucketsPerRound request.scanBudget s.recordExists
      s.expiryByDeadline 0 0 = []) (hdue : ∃ key, s.Due now key) : ¬s.SweepAdvances now request ∧
      ∀ n, (fun s => sweepExpiredRecordsWithRequest s now request)^[n] s = s := by
  have hsame : s.sweepExpiredRecordsWithRequest now request = s := by
    unfold ShardExpirySweepRequest.scanBudget at hhot
    unfold sweepExpiredRecordsWithRequest
    dsimp only
    rw [hhot, hcold, sweepHot, sweepCold_false]
  refine ⟨fun hadv => ?_, fun n => iterate_fixed hsame n⟩
  obtain ⟨key, ⟨-, hpres⟩, hrem⟩ := hadv hdue
  rw [hsame, hpres] at hrem
  cases hrem

/-- Sixty-four strings are set with a deadline and deleted, and another is set with a later one. -/
def orphaned : ShardState :=
  (((range 64).map fun i => [UInt8.ofNat i]).foldl (fun (s : ShardState) key =>
    ((s.stringSetEx 0 key [] 5).shard.stringDelete 0 key).shard) .empty).stringSetEx 0 [64] [] 6
      |>.shard

/-- The deadlines that the deleted strings left use up the budget of every round. -/
theorem not_sweepAdvances_orphaned : ¬SweepAdvances orphaned 10 ⟨1, 1, false⟩ ∧
    ∀ n, (fun s => sweepExpiredRecordsWithRequest s 10 ⟨1, 1, false⟩)^[n] orphaned = orphaned := by
  have hhot : dueWindow 10 1 64 orphaned.recordExists orphaned.expiryByDeadline 0 0 = [] := by
    decide +kernel
  have hdue : orphaned.expired 10 [64] ∧ orphaned.recordExists [64] := by decide +kernel
  exact @sweep_stalls orphaned 10 ⟨1, 1, false⟩ rfl hhot ⟨[64], hdue⟩

end ShardState

end TemporalStore.Shard
