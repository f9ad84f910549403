import TemporalStore.Lib.Lapse
import TemporalStore.Lib.Mirror
import TemporalStore.Shard.Replay

namespace TemporalStore.Shard

open Lib List Option ShardState Function Ledger

abbrev SeenCheck := ℕ × (Key × Bytes)

namespace Engine

def checkSeen (e : Engine) (config : Config) (windowMs : ℕ) (check : SeenCheck) :
    Engine × CommandResponse :=
  e.execute config check.1 (.seenCheck check.2.1 check.2.2 windowMs)

def runChecks (e : Engine) (config : Config) (windowMs : ℕ) (checks : List SeenCheck) : Engine :=
  checks.foldl (fun e check => (e.checkSeen config windowMs check).1) e

def answers (e : Engine) (config : Config) (windowMs : ℕ) : List SeenCheck → List CommandResponse
  | [] => []
  | check :: checks =>
    (e.checkSeen config windowMs check).2 ::
      answers (e.checkSeen config windowMs check).1 config windowMs checks

end Engine

/-- When the members that the shard holds stop counting as seen. -/
def seenLedger (windowMs : ℕ) (s : ShardState) : Ledger (Key × Bytes) := fun k =>
  (((s.records k.1).seen.getD .empty).byMember.lookup k.2).map (· + (windowMs + 1))

lemma lookup_purgeSeen (floor fuel : ℕ) (seen : SeenSet) (member : Bytes) :
    (purgeSeen floor fuel seen).byMember.lookup member = seen.byMember.lookup member ∨
      ((purgeSeen floor fuel seen).byMember.lookup member = none ∧
        ∃ seenAt, seen.byMember.lookup member = some seenAt ∧ seenAt < floor) := by
  induction fuel generalizing seen with
  | zero => exact .inl rfl
  | succ fuel ih =>
    unfold purgeSeen
    split
    case h_1 seenAt old byTime _ =>
      split
      case isTrue hold =>
        rcases ih ⟨if seen.byMember.lookup old = some seenAt then seen.byMember.erase old
            else seen.byMember, byTime⟩ with hrest | ⟨hrest, t, ht, hlt⟩
        · -- the later steps drop nothing
          rw [hrest]
          split
          case isTrue hold' =>
            by_cases hm : member = old
            · subst hm
              exact .inr ⟨Finmap.lookup_erase _ _, seenAt, hold', hold⟩
            · exact .inl (Finmap.lookup_erase_ne hm)
          case isFalse => exact .inl rfl
        · refine .inr ⟨hrest, t, ?_, hlt⟩
          split at ht
          · by_cases hm : member = old
            · subst hm
              cases (Finmap.lookup_erase _ _).symm.trans ht
            · exact (Finmap.lookup_erase_ne hm).symm.trans ht
          · exact ht
      case isFalse => exact .inl rfl
    case h_2 => exact .inl rfl

lemma lookup_noteSeen (seen : SeenSet) (member : Bytes) (seenAt : ℕ) (m : Bytes) :
    (noteSeen seen member seenAt).byMember.lookup m =
      if m = member then some seenAt else seen.byMember.lookup m := by
  unfold noteSeen
  dsimp only
  split
  case isTrue h =>
    subst h
    exact Finmap.lookup_insert _
  case isFalse h => exact Finmap.lookup_insert_of_ne _ h

lemma seenLedger_modifyRecord (windowMs : ℕ) (s : ShardState) (key : Key) (seen : SeenSet)
    (k : Key × Bytes) :
    seenLedger windowMs (s.modifyRecord key fun r => { r with seen := some seen }) k =
      if k.1 = key then (seen.byMember.lookup k.2).map (· + (windowMs + 1))
      else seenLedger windowMs s k := by
  unfold seenLedger
  rw [records_modifyRecord]
  split <;> rfl

variable {windowMs now : ℕ} {s : ShardState}

lemma live_seenLedger {key : Key} {member : Bytes} :
    (seenLedger windowMs s).Live (key, member) now ↔
      (((s.records key).seen.getD .empty).byMember.lookup member).any (now - windowMs ≤ ·) := by
  unfold Ledger.Live seenLedger
  cases ((s.records key).seen.getD .empty).byMember.lookup member with
  | none => simp
  | some seenAt =>
    simp only [map_some, some.injEq, exists_eq_left', any_some, decide_eq_true_eq]
    omega

lemma agreeFrom_purge (windowMs now fuel : ℕ) (s : ShardState) (key : Key) : Ledger.AgreeFrom now
      (seenLedger windowMs (s.modifyRecord key fun r => { r with
        seen := some (purgeSeen (now - windowMs) fuel ((s.records key).seen.getD .empty)) }))
      (seenLedger windowMs s) := by
  intro k t ht
  unfold Ledger.Live
  rw [seenLedger_modifyRecord]
  split
  case isTrue hk =>
    have hold : seenLedger windowMs s k =
        (((s.records key).seen.getD .empty).byMember.lookup k.2).map (· + (windowMs + 1)) := by
      rw [← hk]
      rfl
    rw [hold]
    rcases lookup_purgeSeen (now - windowMs) fuel ((s.records key).seen.getD .empty) k.2 with
      hkept | ⟨hnone, seenAt, hseen, hlt⟩
    · rw [hkept]
    · rw [hnone, hseen]
      simp only [map_none, map_some, some.injEq, exists_eq_left', reduceCtorEq,
        false_and, exists_false, false_iff]
      omega
  case isFalse => exact Iff.rfl

lemma seenLedger_noteSeen (windowMs : ℕ) (s : ShardState) (key : Key) (seen : SeenSet)
    (member : Bytes) (seenAt : ℕ) : seenLedger windowMs (s.modifyRecord key fun r => { r with
        seen := some (noteSeen seen member seenAt) }) =
      (seenLedger windowMs (s.modifyRecord key fun r => { r with seen := some seen })).enter
        (key, member) (seenAt + (windowMs + 1)) := by
  funext ⟨k, m⟩
  rw [enter, update_apply, seenLedger_modifyRecord, seenLedger_modifyRecord, lookup_noteSeen]
  by_cases hk : k = key
  · by_cases hm : m = member <;> simp [hk, hm]
  · simp [hk]

lemma seenCheck_spec (h : NoDeadlines s) (now : ℕ) (key : Key) (member : Bytes) (windowMs : ℕ) :
    (s.seenCheck now key member windowMs).response =
        .integer (if (seenLedger windowMs s).Live (key, member) now then 1 else 0) ∧
      NoDeadlines (s.seenCheck now key member windowMs).shard ∧
      Ledger.AgreeFrom now (seenLedger windowMs (s.seenCheck now key member windowMs).shard)
        ((seenLedger windowMs s).check (key, member) now (now + (windowMs + 1))) := by
  have hpurge := agreeFrom_purge windowMs now 128 s key
  have hdup := hpurge (key, member) now le_rfl
  rw [live_seenLedger] at hdup
  unfold seenCheck check
  rw [h.removeIfExpired]
  dsimp only
  rw [records_modifyRecord, if_pos rfl] at hdup
  dsimp only [getD_some] at hdup
  by_cases hlive : (seenLedger windowMs s).Live (key, member) now
  · rw [if_pos hlive, if_pos hlive, if_pos (hdup.mpr hlive), if_pos (hdup.mpr hlive)]
    exact ⟨rfl, h, hpurge⟩
  · rw [if_neg hlive, if_neg hlive, if_neg fun hd => hlive (hdup.mp hd),
      if_neg fun hd => hlive (hdup.mp hd)]
    refine ⟨rfl, h, ?_⟩
    rw [seenLedger_noteSeen]
    exact hpurge.enter (key, member) _

def enterCheck (windowMs : ℕ) (m : Ledger (Key × Bytes)) (c : SeenCheck) : Ledger (Key × Bytes) :=
  m.enter c.2 (c.1 + (windowMs + 1))

def passCheck (windowMs : ℕ) (m : Ledger (Key × Bytes)) (c : SeenCheck) : Ledger (Key × Bytes) :=
  m.check c.2 c.1 (c.1 + (windowMs + 1))

/-- The engine's shard has no deadlines and its ledger is as good as this one. -/
structure Tracks (windowMs now : ℕ) (e : Engine) (m : Ledger (Key × Bytes)) : Prop where
  deadlines : NoDeadlines e.shard
  agree : Ledger.AgreeFrom now (seenLedger windowMs e.shard) m

variable {e : Engine} {m : Ledger (Key × Bytes)}

lemma Tracks.mono {now' : ℕ} (h : Tracks windowMs now e m) (hle : now ≤ now') :
    Tracks windowMs now' e m :=
  ⟨h.deadlines, h.agree.mono hle⟩

lemma Tracks.checkSeen {check : SeenCheck} (h : Tracks windowMs check.1 e m) (config : Config) :
    (e.checkSeen config windowMs check).2 = .integer (if m.Live check.2 check.1 then 1 else 0) ∧
      Tracks windowMs check.1 (e.checkSeen config windowMs check).1
        (m.check check.2 check.1 (check.1 + (windowMs + 1))) := by
  obtain ⟨now, key, member⟩ := check
  have hdead : NoDeadlines
      { e.shard with controlStateMaxSize := config.controlStateMaxSize } := h.deadlines
  obtain ⟨hresp, hd, hagree⟩ := seenCheck_spec hdead now key member windowMs
  refine ⟨?_, hd, hagree.trans (h.agree.check (key, member) _)⟩
  have hlive : (seenLedger windowMs { e.shard with
      controlStateMaxSize := config.controlStateMaxSize }).Live (key, member) now ↔
      m.Live (key, member) now := h.agree (key, member) now le_rfl
  rw [if_congr hlive rfl rfl] at hresp
  exact hresp

variable {checks : List SeenCheck}

section

variable (h : Tracks windowMs now e m) (config : Config)
    (hsort : checks.Pairwise fun c d => c.1 ≤ d.1) (hnow : ∀ c ∈ checks, now ≤ c.1)
include h hsort hnow

lemma Tracks.answers : e.answers config windowMs checks =
      (answers (windowMs + 1) m checks).map fun dup => .integer (if dup then 1 else 0) := by
  induction checks generalizing e m now with
  | nil => rfl
  | cons check checks ih =>
    obtain ⟨hlater, hsort⟩ := pairwise_cons.mp hsort
    obtain ⟨hresp, htracks⟩ := (h.mono (hnow check mem_cons_self)).checkSeen config
    unfold Engine.answers answers
    rw [hresp, ih htracks hsort hlater]
    simp

lemma Tracks.runChecks {later : ℕ} (hle : now ≤ later) (hlater : ∀ c ∈ checks, c.1 ≤ later) :
    Tracks windowMs later (e.runChecks config windowMs checks)
      (checks.foldl (passCheck windowMs) m) := by
  induction checks generalizing e m now with
  | nil => exact h.mono hle
  | cons check checks ih =>
    obtain ⟨hfirst, hsort⟩ := pairwise_cons.mp hsort
    have hstep := ((h.mono (hnow check mem_cons_self)).checkSeen config).2
    exact ih hstep hsort hfirst (hlater check mem_cons_self)
      fun c hc => hlater c (mem_cons_of_mem check hc)

end

lemma tracks_runChecks (windowMs : ℕ) (config : Config)
    (hsort : checks.Pairwise fun c d => c.1 ≤ d.1) (hlater : ∀ c ∈ checks, c.1 ≤ now) :
    Tracks windowMs now (Engine.empty.runChecks config windowMs checks)
      (checks.foldl (passCheck windowMs) fun _ => none) := by
  have hempty : Tracks windowMs 0 .empty fun _ => none := ⟨fun _ => rfl, Ledger.AgreeFrom.refl 0 _⟩
  exact hempty.runChecks config hsort (fun _ _ => Nat.zero_le _) (Nat.zero_le _) hlater

variable (config : Config)

def seenRecord (windowMs : ℕ) (check : SeenCheck) : LogRecord :=
  ⟨.seenCheck check.2.1 check.2.2 windowMs, [.seen check.2.1 check.2.2 check.1], check.1, config⟩

lemma log_runChecks (windowMs : ℕ) (checks : List SeenCheck) (e : Engine) :
    (e.runChecks config windowMs checks).index = e.index ∧
      (e.runChecks config windowMs checks).log =
        e.log ++ checks.map (seenRecord config windowMs) := by
  induction checks generalizing e with
  | nil => exact ⟨rfl, (append_nil e.log).symm⟩
  | cons check checks ih =>
    obtain ⟨hidx, hlog⟩ := ih (e.checkSeen config windowMs check).1
    refine ⟨hidx, hlog.trans ?_⟩
    have hone : (e.checkSeen config windowMs check).1.log =
        e.log ++ [seenRecord config windowMs check] := rfl
    rw [hone, append_assoc]
    rfl

lemma seenLedger_applySeen (windowMs : ℕ) (s : ShardState) (key : Key) (member : Bytes)
    (seenAt : ℕ) : seenLedger windowMs (s.applyOutcomeItem (.seen key member seenAt)) =
      (seenLedger windowMs s).enter (key, member) (seenAt + (windowMs + 1)) := by
  have hsame : seenLedger windowMs (s.modifyRecord key fun r => { r with
      seen := some ((s.records key).seen.getD .empty) }) = seenLedger windowMs s := by
    funext k
    rw [seenLedger_modifyRecord]
    split
    case isTrue hk => rw [← hk]; rfl
    case isFalse => rfl
  rw [← hsame, ← seenLedger_noteSeen]
  rfl

lemma replay_seenRecords (windowMs clock : ℕ) (checks : List SeenCheck) (h : NoDeadlines s) :
    NoDeadlines (replayWal clock s (checks.map (seenRecord config windowMs))) ∧
      seenLedger windowMs (replayWal clock s (checks.map (seenRecord config windowMs))) =
        checks.foldl (enterCheck windowMs) (seenLedger windowMs s) := by
  induction checks generalizing s with
  | nil => exact ⟨h, rfl⟩
  | cons check checks ih =>
    rw [foldl_cons, enterCheck, ← seenLedger_applySeen]
    exact ih h

lemma tracks_recover (windowMs clock : ℕ) (reconciled persisted : Bool) (checks : List SeenCheck)
    (now : ℕ) : Tracks windowMs now
      ((Engine.empty.runChecks config windowMs checks).recover clock reconciled persisted)
      (checks.foldl (enterCheck windowMs) fun _ => none) := by
  obtain ⟨hidx, hlog⟩ := log_runChecks config windowMs checks .empty
  have hempty : NoDeadlines empty := fun _ => rfl
  obtain ⟨hdead, hled⟩ := replay_seenRecords config windowMs clock checks hempty
  have hagree := (congrArg (Ledger.AgreeFrom now · _) hled).mpr (.refl now _)
  unfold Engine.recover
  rw [hidx, hlog]
  -- neither part of a seen set is touched when counters are reconciled
  cases reconciled <;> dsimp only <;> split <;> exact ⟨hdead, hagree⟩

def lastSeen (checks : List SeenCheck) (k : Key × Bytes) : Option ℕ :=
  checks.foldl (fun last c => if c.2 = k then some c.1 else last) none

/-- When a member was last checked more than a window after the check before it that counts. -/
def lastFresh (windowMs : ℕ) (checks : List SeenCheck) (k : Key × Bytes) : Option ℕ :=
  checks.foldl (fun last c =>
    if c.2 = k ∧ ¬∃ l ∈ last, c.1 ≤ l + windowMs then some c.1 else last) none

/-- The instant is in the window that this time opens. -/
def Within (windowMs : ℕ) (last : Option ℕ) (now : ℕ) : Prop := ∃ l ∈ last, now ≤ l + windowMs

instance (windowMs : ℕ) (last : Option ℕ) (now : ℕ) : Decidable (Within windowMs last now) :=
  inferInstanceAs (Decidable (∃ l ∈ last, now ≤ l + windowMs))

variable {last : Option ℕ}

lemma live_iff_within {k : Key × Bytes} (h : m k = last.map (· + (windowMs + 1))) (now : ℕ) :
    m.Live k now ↔ Within windowMs last now := by
  unfold Ledger.Live Within
  rw [h]
  cases last with
  | none => simp
  | some l =>
    simp only [map_some, some.injEq, exists_eq_left', mem_def]
    omega

section

variable (windowMs : ℕ) (k : Key × Bytes) (checks : List SeenCheck)
    (h : m k = last.map (· + (windowMs + 1)))
include h

lemma foldl_enter_apply : checks.foldl (enterCheck windowMs) m k =
      (checks.foldl (fun last c => if c.2 = k then some c.1 else last) last).map
        (· + (windowMs + 1)) := by
  induction checks generalizing m last with
  | nil => exact h
  | cons c checks ih =>
    apply ih
    unfold enterCheck enter
    dsimp only
    rw [update_apply]
    by_cases hk : c.2 = k
    · rw [if_pos hk.symm, if_pos hk]
      rfl
    · rw [if_neg (Ne.symm hk), if_neg hk]
      exact h

lemma foldl_check_apply : checks.foldl (passCheck windowMs) m k = (checks.foldl (fun last c =>
        if c.2 = k ∧ ¬∃ l ∈ last, c.1 ≤ l + windowMs then some c.1 else last) last).map
        (· + (windowMs + 1)) := by
  induction checks generalizing m last with
  | nil => exact h
  | cons c checks ih =>
    apply ih
    unfold passCheck check
    dsimp only
    by_cases hk : c.2 = k
    · subst hk
      have hlive := live_iff_within h c.1
      by_cases hl : m.Live c.2 c.1
      · rw [if_pos hl, if_neg fun hfresh => hfresh.2 (hlive.mp hl)]
        exact h
      · rw [if_neg hl, if_pos ⟨rfl, fun hw => hl (hlive.mpr hw)⟩, enter, update_self]
        rfl
    · have hstale : ¬(c.2 = k ∧ ¬∃ l ∈ last, c.1 ≤ l + windowMs) := fun hfresh => hk hfresh.1
      rw [if_neg hstale, ← h]
      split
      · rfl
      · exact update_of_ne (Ne.symm hk) _ _

end

lemma exists_between {before after : List SeenCheck} (hbef : before.Pairwise fun c d => c.1 ≤ d.1)
    (hbetween : ∀ c ∈ before, ∀ d ∈ after, c.1 ≤ d.1) :
    ∃ now, (∀ c ∈ before, c.1 ≤ now) ∧ ∀ d ∈ after, now ≤ d.1 := by
  rcases eq_nil_or_concat' before with rfl | ⟨init, last, rfl⟩
  · exact ⟨0, nofun, fun _ _ => Nat.zero_le _⟩
  · refine ⟨last.1, ?_, hbetween last (by simp)⟩
    intro c hc
    rcases mem_append.mp hc with hc | hc
    · exact (pairwise_append.mp hbef).2.2 c hc last (mem_singleton.mpr rfl)
    · rw [mem_singleton.mp hc]

/-- The checks after a recovery are answered as they would have been without the crash just when
each of them is as much in the window of its member's last check as in that of the last check that
was no duplicate. -/
theorem seen_answers_recover_iff (config : Config) (windowMs clock : ℕ)
    (reconciled persisted : Bool) (before after : List SeenCheck)
    (hsorted : (before ++ after).Pairwise fun c d => c.1 ≤ d.1) :
    ((Engine.empty.runChecks config windowMs before).recover clock reconciled persisted).answers
        config windowMs after =
      (Engine.empty.runChecks config windowMs before).answers config windowMs after ↔
    ∀ c ∈ after, (Within windowMs (lastSeen before c.2) c.1 ↔
      Within windowMs (lastFresh windowMs before c.2) c.1) := by
  obtain ⟨hbefore, hafter, hbetween⟩ := pairwise_append.mp hsorted
  obtain ⟨now, hle, hnow⟩ := exists_between hbefore hbetween
  have hlive := tracks_runChecks windowMs config hbefore hle
  have hrecovered := tracks_recover config windowMs clock reconciled persisted before now
  have hinjective : Function.Injective fun dup : Bool =>
      CommandResponse.integer (if dup then 1 else 0) := by decide
  rw [hrecovered.answers config hafter hnow, hlive.answers config hafter hnow,
    (map_injective_iff.mpr hinjective).eq_iff, answers_eq_iff hafter]
  apply forall₂_congr
  intro c _
  have hnone : (fun _ => none : Ledger (Key × Bytes)) c.2 =
      (none : Option ℕ).map (· + (windowMs + 1)) := rfl
  rw [live_iff_within (foldl_enter_apply windowMs c.2 before hnone),
    live_iff_within (foldl_check_apply windowMs c.2 before hnone)]
  rfl

def seenConfig : Config := ⟨false, false, false, 0⟩

/-- A window of ten. The second member was checked once, so the crash does not show. -/
theorem seen_answers_oneCheck :
    ([(0, ([], [1])), (8, ([], [2]))] ++ [(15, ([], [2])), (30, ([], [1]))] :
      List SeenCheck).Pairwise (fun c d => c.1 ≤ d.1) ∧
    ((Engine.empty.runChecks seenConfig 10 [(0, ([], [1])), (8, ([], [2]))]).recover 9 false
        true).answers seenConfig 10 [(15, ([], [2])), (30, ([], [1]))] =
      (Engine.empty.runChecks seenConfig 10 [(0, ([], [1])), (8, ([], [2]))]).answers seenConfig 10
        [(15, ([], [2])), (30, ([], [1]))] := by
  refine ⟨by decide, ?_⟩
  rw [seen_answers_recover_iff _ _ _ _ _ _ _ (by decide)]
  decide

/-- Checks at 0 and 8, the second a duplicate; after the crash the replayed time is 8, and a check
at 15 is taken for a duplicate that without the crash would be none. -/
theorem seen_answers_twoChecks :
    ((Engine.empty.runChecks seenConfig 10 [(0, ([], [1])), (8, ([], [1]))]).recover 9 false
        true).answers seenConfig 10 [(15, ([], [1]))] ≠
      (Engine.empty.runChecks seenConfig 10 [(0, ([], [1])), (8, ([], [1]))]).answers seenConfig 10
        [(15, ([], [1]))] := by
  decide +kernel

/-- The indexes of a seen set hold the same members and times. -/
structure SeenSet.Agree (seen : SeenSet) : Prop where
  nodup : seen.byTime.Nodup
  mem_iff : ∀ seenAt member, (seenAt, member) ∈ seen.byTime ↔
    seen.byMember.lookup member = some seenAt

lemma SeenSet.Agree.of_mirrors {seen : SeenSet} {m : Bytes → Option ℕ}
    (h : Mirrors m seen.byTime) (hm : ∀ member, seen.byMember.lookup member = m member) :
    seen.Agree :=
  ⟨h.nodup, fun t member => hm member ▸ h.mem_iff t member⟩

lemma SeenSet.Agree.mirrors {seen : SeenSet} (h : seen.Agree) :
    Mirrors (fun member => seen.byMember.lookup member) seen.byTime :=
  ⟨h.nodup, h.mem_iff⟩

lemma SeenSet.Agree.purgeSeen {seen : SeenSet} (h : seen.Agree) (floor fuel : ℕ) :
    (purgeSeen floor fuel seen).Agree := by
  induction fuel generalizing seen with
  | zero => exact h
  | succ fuel ih =>
    unfold ShardState.purgeSeen
    split
    case h_1 seenAt old byTime htime =>
      split
      case isTrue =>
        have hold : seen.byMember.lookup old = some seenAt := by
          rw [← h.mem_iff, htime]
          exact mem_cons_self
        rw [if_pos hold]
        have hrest := h.mirrors.erase hold
        rw [htime, erase_cons_head] at hrest
        refine ih (.of_mirrors hrest fun member => ?_)
        rw [update_apply]
        split
        case isTrue hm => exact hm ▸ Finmap.lookup_erase old seen.byMember
        case isFalse hm => exact Finmap.lookup_erase_ne hm
      case isFalse => exact h
    case h_2 => exact h

lemma SeenSet.Agree.noteSeen {seen : SeenSet} (h : seen.Agree) (member : Bytes) (now : ℕ) :
    (ShardState.noteSeen seen member now).Agree := by
  obtain ⟨rest, hrest, hmirrors⟩ : ∃ rest : List (ℕ × Bytes),
      (ShardState.noteSeen seen member now).byTime =
        (rest.erase (now, member)).orderedInsert instantLe (now, member) ∧
      Mirrors (update (fun m => seen.byMember.lookup m) member none) rest :=
    ⟨_, rfl, h.mirrors.forget (fun t ht => by simp only [ht]) fun hnone => by simp only [hnone]⟩
  have hgone := update_self member (none : Option ℕ) fun m => seen.byMember.lookup m
  have hnoted := hmirrors.insert instantLe hgone now
  rw [← erase_of_not_mem (hmirrors.not_mem hgone now), ← hrest, update_idem] at hnoted
  refine .of_mirrors hnoted fun m => ?_
  rw [lookup_noteSeen, update_apply]

lemma agree_checkSeen (hdead : NoDeadlines e.shard)
    (h : ∀ key, ((e.shard.records key).seen.getD .empty).Agree) (config : Config)
    (check : SeenCheck) (key : Key) :
    (((e.checkSeen config windowMs check).1.shard.records key).seen.getD .empty).Agree := by
  obtain ⟨now, checked, member⟩ := check
  have hsame : NoDeadlines
      { e.shard with controlStateMaxSize := config.controlStateMaxSize } := hdead
  change (((seenCheck { e.shard with controlStateMaxSize := config.controlStateMaxSize }
    now checked member windowMs).shard.records key).seen.getD .empty).Agree
  unfold seenCheck
  rw [hsame.removeIfExpired]
  rw [records_modifyRecord]
  split
  · have hpurged := (h checked).purgeSeen (now - windowMs) 128
    split
    · exact hpurged
    · exact hpurged.noteSeen member now
  · exact h key

lemma agree_runChecks (checks : List SeenCheck) (hdead : NoDeadlines e.shard)
    (h : ∀ key, ((e.shard.records key).seen.getD .empty).Agree) (key : Key) :
    (((e.runChecks config windowMs checks).shard.records key).seen.getD .empty).Agree := by
  induction checks generalizing e with
  | nil => exact h key
  | cons check checks ih =>
    have hnext : Tracks windowMs check.1 e (seenLedger windowMs e.shard) :=
      ⟨hdead, Ledger.AgreeFrom.refl _ _⟩
    exact ih (hnext.checkSeen config).2.deadlines (agree_checkSeen hdead h config check)

lemma answers_concat (e : Engine) (config : Config) (windowMs : ℕ) (checks : List SeenCheck)
    (check : SeenCheck) :
    e.answers config windowMs (checks ++ [check]) = e.answers config windowMs checks ++
      [((e.runChecks config windowMs checks).checkSeen config windowMs check).2] := by
  induction checks generalizing e with
  | nil => rfl
  | cons first checks ih =>
    rw [cons_append, Engine.answers, ih]
    rfl

/-- When a member was last checked and was no duplicate. -/
def lastNew (windowMs : ℕ) (checks : List SeenCheck) (k : Key × Bytes) : Option ℕ :=
  ((checks.zip (Engine.empty.answers config windowMs checks)).filter fun x =>
    x.1.2 = k ∧ x.2 = .integer 0).getLast?.map fun x => x.1.1

lemma response_checkSeen (windowMs : ℕ) {before : List SeenCheck} {c : SeenCheck}
    (hsort : (before ++ [c]).Pairwise fun c d => c.1 ≤ d.1) :
    ((Engine.empty.runChecks config windowMs before).checkSeen config windowMs c).2 =
      .integer (if Within windowMs (lastFresh windowMs before c.2) c.1 then 1 else 0) := by
  obtain ⟨hbef, -, hlast⟩ := pairwise_append.mp hsort
  have hle : ∀ d ∈ before, d.1 ≤ c.1 := fun d hd => hlast d hd c (mem_singleton_self c)
  have htracks := tracks_runChecks windowMs config hbef hle
  rw [(htracks.checkSeen config).1, if_congr (live_iff_within
    (foldl_check_apply windowMs c.2 before (show _ = (none : Option ℕ).map _ from rfl)) c.1)
      rfl rfl]
  rfl

lemma lastFresh_concat (windowMs : ℕ) (before : List SeenCheck) (c : SeenCheck) (k : Key × Bytes) :
    lastFresh windowMs (before ++ [c]) k =
      if c.2 = k ∧ ¬Within windowMs (lastFresh windowMs before k) c.1 then some c.1
      else lastFresh windowMs before k := by
  rw [lastFresh, foldl_append]
  rfl

lemma length_answers (e : Engine) (config : Config) (windowMs : ℕ) (checks : List SeenCheck) :
    (e.answers config windowMs checks).length = checks.length := by
  induction checks generalizing e with
  | nil => rfl
  | cons check checks ih => rw [Engine.answers, length_cons, ih, length_cons]

lemma lastNew_eq_lastFresh (windowMs : ℕ) {checks : List SeenCheck}
    (hsort : checks.Pairwise fun c d => c.1 ≤ d.1) (k : Key × Bytes) :
    lastNew config windowMs checks k = lastFresh windowMs checks k := by
  induction checks using reverseRecOn with
  | nil => rfl
  | append_singleton before c ih =>
    have hlast := ih (pairwise_append.mp hsort).1
    have hresp := response_checkSeen config windowMs hsort
    have hnew : (c.2 = k ∧ ((Engine.empty.runChecks config windowMs before).checkSeen config
        windowMs
        c).2 = .integer 0) ↔ c.2 = k ∧ ¬Within windowMs (lastFresh windowMs before k) c.1 := by
      refine and_congr_right fun hk => ?_
      rw [hresp, hk]
      split_ifs with hwithin
      · exact iff_of_false (by simp) (not_not.mpr hwithin)
      · exact iff_of_true rfl hwithin
    rw [lastNew, answers_concat, zip_append (length_answers ..).symm, filter_append,
      zip_cons_cons, zip_nil_left, filter_cons, filter_nil, lastFresh_concat]
    simp only [decide_eq_true_eq, hnew]
    split_ifs
    · rw [getLast?_concat, map_some]
    · rw [append_nil]
      exact hlast

/-- A check answers duplicate just when the last check of the member that was no duplicate is not
earlier than the window before it, and the two indexes of every seen set agree. -/
theorem seen_duplicate_iff (windowMs : ℕ) (before : List SeenCheck) (c : SeenCheck)
    (hsorted : (before ++ [c]).Pairwise fun c d => c.1 ≤ d.1) :
    ((Engine.empty.runChecks config windowMs before).checkSeen config windowMs c).2 =
        .integer (if ∃ seenAt ∈ lastNew config windowMs before c.2, c.1 - windowMs ≤ seenAt
          then 1 else 0) ∧
      ∀ key, (((Engine.empty.runChecks config windowMs before).shard.records key).seen.getD
        .empty).Agree := by
  constructor
  · have hwithin : Within windowMs (lastFresh windowMs before c.2) c.1 ↔
        ∃ seenAt ∈ lastNew config windowMs before c.2, c.1 - windowMs ≤ seenAt := by
      rw [lastNew_eq_lastFresh config windowMs (pairwise_append.mp hsorted).1]
      exact exists_congr fun seenAt => and_congr_right fun _ => Nat.sub_le_iff_le_add.symm
    rw [response_checkSeen config windowMs hsorted, if_congr hwithin rfl rfl]
  · refine agree_runChecks config before (fun _ => rfl) fun key => ⟨nodup_nil, fun _ _ => ?_⟩
    exact iff_of_false not_mem_nil nofun

/-- A window of ten. The check at 8 is a duplicate, so that the one at 11 is none. -/
theorem seen_duplicate_eleven :
    ((Engine.empty.runChecks seenConfig 10 [(0, ([], [1])), (8, ([], [1]))]).checkSeen seenConfig 10
      (11, ([], [1]))).2 = .integer 0 := by
  rw [(seen_duplicate_iff seenConfig 10 _ _ (by decide)).1]
  decide +kernel

end TemporalStore.Shard
