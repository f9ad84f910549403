import TemporalStore.Shard.Frames

namespace TemporalStore.Shard

open Lib List ShardState Series

variable (maxSize : ℕ)

def bounded (series : CounterSeries) : CounterSeries :=
  if maxSize = 0 then series else series.drop (series.length - maxSize)

/-- The bound is not raised: no bound is `0`. -/
def NotRaised (maxSize' : ℕ) : Prop := 0 < maxSize → 0 < maxSize' ∧ maxSize' ≤ maxSize

instance (maxSize maxSize' : ℕ) : Decidable (NotRaised maxSize maxSize') :=
  inferInstanceAs (Decidable (_ → _))

/-- The cells hold the series and the dropped amounts, which are older. Amounts are dropped only
from a series as long as its bound. -/
structure Holds (maxSize : ℕ) (series dropped : CounterSeries) (cells : Cells) : Prop where
  cells_eq : ∀ cell, cells cell = cellSum series cell + cellSum dropped cell
  older : ∀ x ∈ dropped, ∀ y ∈ series, x.1 < y.1
  full : dropped ≠ [] → 0 < maxSize ∧ maxSize ≤ series.length

def Sound (series : CounterSeries) (entry : Option RollupEntry) : Prop :=
  ∀ e, entry = some e → ∃ dropped, Holds maxSize series dropped e.cells

lemma sound_none (series : CounterSeries) : Sound maxSize series none := nofun

lemma holds_build (series : CounterSeries) : Holds maxSize series [] (build series) where
  cells_eq cell := by
    rw [build_apply]
    exact (add_zero _).symm
  older := nofun
  full h := absurd rfl h

variable {m : ℕ} {series dropped : CounterSeries} {cells : Cells}

lemma Holds.lower {m' : ℕ} (h : Holds m series dropped cells) (hm : NotRaised m m') :
    Holds m' series dropped cells where
  __ := h
  full hne := by
    obtain ⟨hpos, hle⟩ := h.full hne
    obtain ⟨hpos', hle'⟩ := hm hpos
    exact ⟨hpos', hle'.trans hle⟩

lemma Holds.rangeSum_eq (h : Holds m series dropped cells) (hord : series.Ordered)
    (start stop : ℕ) : rangeSum cells series start stop = scanSum series start stop := by
  apply Shard.rangeSum_eq hord
  intro first hfirst level cell hcell hgrid
  have hmem : first ∈ series := mem_of_mem_head? hfirst
  have hold : edgeSum dropped cell (cell + levelWidth level) = 0 := by
    apply sumOver_eq_zero
    intro x hx
    have := h.older x hx first hmem
    simp only [decide_eq_false_iff_not]
    omega
  rw [h.cells_eq, cellSum_eq_edgeSum series hgrid, cellSum_eq_edgeSum dropped hgrid, hold, add_zero]

lemma bounded_eq_drop (m : ℕ) (series : CounterSeries) : ∃ k, bounded m series = series.drop k ∧
    (k ≠ 0 → 0 < m ∧ k = series.length - m) := by
  unfold bounded
  split
  · exact ⟨0, rfl, absurd rfl⟩
  · exact ⟨_, rfl, fun _ => ⟨by omega, rfl⟩⟩

lemma cellSum_append (series series' : CounterSeries) (cell : Level × ℕ) :
    cellSum (series ++ series') cell = cellSum series cell + cellSum series' cell := by
  simp [cellSum, sumOver]

lemma Holds.bounded (dropped : CounterSeries) (hord : series.Ordered)
    (hcells : ∀ cell, cells cell = cellSum series cell + cellSum dropped cell)
    (holder : ∀ x ∈ dropped, ∀ y ∈ Shard.bounded m series, x.1 < y.1)
    (hfull : dropped ≠ [] → 0 < m ∧ m ≤ series.length) :
    ∃ dropped', Holds m (Shard.bounded m series) dropped' cells := by
  obtain ⟨k, hbounded, hk⟩ := bounded_eq_drop m series
  rw [hbounded] at holder ⊢
  refine ⟨series.take k ++ dropped, ?_, ?_, ?_⟩
  · intro cell
    have hsplit := cellSum_append (series.take k) (series.drop k) cell
    rw [take_append_drop] at hsplit
    rw [hcells, cellSum_append]
    omega
  · exact forall_mem_append.mpr ⟨fun x hx y hy => hord.take_lt_drop hx hy, holder⟩
  · intro hne
    rw [length_drop]
    rcases eq_or_ne k 0 with rfl | hpos
    · exact hfull (by simpa using hne)
    · omega

variable {entry : Option RollupEntry}

lemma Sound.duplicate (h : Sound m series entry) (hord : series.Ordered) :
    Sound m (bounded m series) entry := by
  intro e he
  obtain ⟨dropped, hholds⟩ := h e he
  apply Holds.bounded dropped hord hholds.cells_eq _ hholds.full
  intro x hx y hy
  obtain ⟨k, hbounded, -⟩ := bounded_eq_drop m series
  rw [hbounded] at hy
  exact hholds.older x hx y (mem_of_mem_drop hy)

lemma older_bounded_bump (hord : series.Ordered) (holder : ∀ x ∈ dropped, ∀ y ∈ series, x.1 < y.1)
    (hfull : dropped ≠ [] → 0 < m ∧ m ≤ series.length) (bucket : ℕ) (amount : ℤ) :
    ∀ x ∈ dropped, ∀ y ∈ bounded m (series.bump bucket amount), x.1 < y.1 := by
  intro x hx y hy
  obtain ⟨hpos, hle⟩ := hfull (ne_nil_of_mem hx)
  rw [bounded, if_neg hpos.ne'] at hy
  have hold {t : ℕ} : (∃ z ∈ series, z.1 = t) → x.1 < t := by
    rintro ⟨z, hz, rfl⟩
    exact holder x hx z hz
  rcases instant_of_mem_bump (mem_of_mem_drop hy) with rfl | hz
  case inr => exact hold hz
  by_cases hz : ∃ z ∈ series, z.1 = y.1
  · exact hold hz
  -- the new point is kept, so an older one was dropped in its place
  have hlen := length_bump_of_new (fun z hmem heq => hz ⟨z, hmem, heq⟩) amount
  obtain ⟨oldest, hdropped⟩ := exists_mem_of_length_pos (l := (series.bump y.1 amount).take
    ((series.bump y.1 amount).length - m)) (by rw [length_take]; omega)
  have hlt : oldest.1 < y.1 := (hord.bump y.1 amount).take_lt_drop hdropped hy
  rcases instant_of_mem_bump (mem_of_mem_take hdropped) with heq | hz
  · omega
  · exact (hold hz).trans hlt

lemma cellSum_bump (series : CounterSeries) (bucket : ℕ) (amount : ℤ) (cell : Level × ℕ) :
    cellSum (series.bump bucket amount) cell = cellSum series cell +
        if bucketStart bucket (levelWidth cell.1) = cell.2 then amount else 0 := by
  unfold cellSum
  rw [sumOver_bump]
  simp only [decide_eq_true_eq]

lemma Sound.counted {e : RollupEntry} (h : Sound m series (some e)) (hord : series.Ordered)
    (bucket : ℕ) (amount : ℤ) : ∃ dropped, Holds m (bounded m (series.bump bucket amount)) dropped
      (foldCells e.cells bucket amount) := by
  obtain ⟨dropped, hholds⟩ := h e rfl
  apply Holds.bounded dropped (hord.bump bucket amount)
  · intro cell
    rw [foldCells_apply, hholds.cells_eq, cellSum_bump]
    omega
  · exact older_bounded_bump hord hholds.older hholds.full bucket amount
  · intro hne
    obtain ⟨hpos, hle⟩ := hholds.full hne
    exact ⟨hpos, hle.trans (length_le_length_bump series bucket amount)⟩

lemma ordered_bounded (h : series.Ordered) (m : ℕ) : (bounded m series).Ordered := by
  obtain ⟨k, hbounded, -⟩ := bounded_eq_drop m series
  rw [hbounded]
  exact h.drop k

/-- The ladder after a write of an amount, the series being as it is after the write. -/
def recorded (entry : Option RollupEntry) (series : CounterSeries) (bucket : ℕ) (amount : ℤ) :
    RollupEntry :=
  match entry with
  | some entry => ⟨foldCells entry.cells bucket amount, series.length⟩
  | none => ⟨build series, series.length⟩

/-- The commands that touch counters change one of them: a write that counts, a write that the
ledger knows, or a query, which may rebuild the ladder. -/
inductive CounterStep (on : Bool) (maxSize : ℕ) (series : CounterSeries)
    (entry : Option RollupEntry) : CounterSeries → Option RollupEntry → Prop
  | counted (bucket : ℕ) (amount : ℤ) :
    CounterStep on maxSize series entry (bounded maxSize (series.bump bucket amount))
      (if on then some (recorded entry (bounded maxSize (series.bump bucket amount)) bucket amount)
        else entry)
  | duplicate : CounterStep on maxSize series entry (bounded maxSize series) entry
  | read : CounterStep on maxSize series entry series entry
  | rebuilt : CounterStep on maxSize series entry series (some ⟨build series, series.length⟩)

/-- The state after a command that touches the counter of `key` and no other. -/
structure Touches (on : Bool) (s s' : ShardState) (key : Key) : Prop where
  maxSize : s'.controlStateMaxSize = s.controlStateMaxSize
  here : CounterStep on s.controlStateMaxSize (s.counter key) (s.rollups key) (s'.counter key)
    (s'.rollups key)
  elsewhere : ∀ k, k ≠ key → s'.counter k = s.counter k ∧ s'.rollups k = s.rollups k

variable {on : Bool} {s s' : ShardState}

lemma Touches.of_eq {u : ShardState} {key : Key} (h : Touches on u s' key)
    (hctr : u.counter = s.counter) (hroll : u.rollups = s.rollups)
    (hmax : u.controlStateMaxSize = s.controlStateMaxSize) : Touches on s s' key := by
  refine ⟨h.maxSize.trans hmax, ?_, ?_⟩
  · rw [← hmax, ← hctr, ← hroll]
    exact h.here
  · rw [← hctr, ← hroll]
    exact h.elsewhere

namespace ShardState

lemma counter_addToCounter (s : ShardState) (key : Key) (bucket : ℕ) (amount : ℤ) (k : Key) :
    (s.addToCounter key bucket amount).counter k =
      if k = key then (s.counter key).bump bucket amount else s.counter k := by
  unfold addToCounter
  rw [counter_modifyRecord]
  rfl

lemma counter_trim (s : ShardState) (key : Key) (maxSize : ℕ) (k : Key) :
    (s.trimControlStateSeries key maxSize).counter k =
      if k = key then bounded maxSize (s.counter key) else s.counter k := by
  unfold trimControlStateSeries bounded
  by_cases hm : maxSize = 0
  · simp only [hm, if_true]
    split
    case isTrue h => rw [h]
    case isFalse => rfl
  · simp only [hm, if_false, counter_modifyRecord]
    cases h : (s.records key).controlState <;> simp [counter, h]

lemma same_persist (s : ShardState) (config : Config) (key : Key) :
    Same (s.trimControlStateSeries key s.controlStateMaxSize)
      (s.persistControlStateBlock config key).1 := by
  unfold persistControlStateBlock
  generalize s.trimControlStateSeries key s.controlStateMaxSize = t
  dsimp only
  split
  · dsimp only
    exact t.same_modifyRecord key fun _ => rfl
  · split
    · exact Same.refl t
    · dsimp only
      exact t.same_modifyRecord key fun _ => rfl

variable {t : ShardState}

section

variable (s : ShardState) (config : Config) (now : ℕ) (key : Key)

lemma finish_eq (ttlMs : Option ℕ)
    (ht : t = ((s.persistControlStateBlock config key).1.optionalExpiry now key ttlMs).1) :
    t.controlStateUuid = s.controlStateUuid ∧ t.controlStateMaxSize = s.controlStateMaxSize ∧
      t.rollups = s.rollups ∧ ∀ k, t.counter k =
        if k = key then bounded s.controlStateMaxSize (s.counter key) else s.counter k := by
  have hsame : Same (s.trimControlStateSeries key s.controlStateMaxSize) t := by
    rw [ht]
    exact (s.same_persist config key).trans (same_optionalExpiry _ now key ttlMs)
  have htrim : ∀ m, (s.trimControlStateSeries key m).controlStateUuid = s.controlStateUuid ∧
      (s.trimControlStateSeries key m).controlStateMaxSize = s.controlStateMaxSize ∧
      (s.trimControlStateSeries key m).rollups = s.rollups := by
    intro m
    unfold trimControlStateSeries
    split <;> exact ⟨rfl, rfl, rfl⟩
  obtain ⟨hled, hmax, hroll⟩ := htrim s.controlStateMaxSize
  refine ⟨hsame.ledger.trans hled, hsame.maxSize.trans hmax, hsame.rollups.trans hroll, ?_⟩
  intro k
  rw [hsame.counter, counter_trim]

lemma rollups_recordIncrement (bucket : ℕ) (amount : ℤ) (k : Key) :
    (s.recordIncrement key bucket amount).rollups k =
      if k = key then some (recorded (s.rollups key) (s.counter key) bucket amount)
      else s.rollups k := by
  cases h : s.rollups key <;> simp [recordIncrement, recorded, h, Function.update_apply]

/-- A write that counts: the series is bumped and bounded, and the ladder is kept up when it is
on. -/
lemma touches_counted (bucket : ℕ) (amount : ℤ) (ttlMs : Option ℕ)
    (ht : t = (((s.addToCounter key bucket amount).persistControlStateBlock config
      key).1.optionalExpiry now key ttlMs).1) :
    ∃ s', s' = (if config.controlRollupEnabled then t.recordIncrement key bucket amount else t) ∧
      Touches config.controlRollupEnabled s s' key ∧ s'.controlStateUuid = s.controlStateUuid := by
  obtain ⟨hled, hmax, hroll, hctr⟩ := finish_eq _ config now key ttlMs ht
  have hhere : t.counter key =
      bounded s.controlStateMaxSize ((s.counter key).bump bucket amount) := by
    rw [hctr, if_pos rfl, counter_addToCounter, if_pos rfl]
    rfl
  have helse : ∀ k, k ≠ key → t.counter k = s.counter k := by
    intro k hk
    rw [hctr, if_neg hk, counter_addToCounter, if_neg hk]
  have hstep : CounterStep config.controlRollupEnabled s.controlStateMaxSize (s.counter key)
      (s.rollups key) _ _ := .counted bucket amount
  rw [← hhere] at hstep
  cases hon : config.controlRollupEnabled with
  | true =>
    rw [hon] at hstep
    rw [if_pos rfl]
    refine ⟨_, rfl, ⟨hmax, ?_, ?_⟩, hled⟩
    · rw [rollups_recordIncrement, if_pos rfl, hroll]
      exact hstep
    · intro k hk
      rw [rollups_recordIncrement, if_neg hk, hroll]
      exact ⟨helse k hk, rfl⟩
  | false =>
    rw [hon] at hstep
    rw [if_neg Bool.false_ne_true]
    refine ⟨_, rfl, ⟨hmax, ?_, ?_⟩, hled⟩
    · rw [hroll]
      exact hstep
    · intro k hk
      rw [hroll]
      exact ⟨helse k hk, rfl⟩

lemma touches_duplicate (ttlMs : Option ℕ) (on : Bool)
    (ht : t = (((s.modifyRecord key fun r => { r with
      controlState := some (r.controlState.getD []) }).persistControlStateBlock config
        key).1.optionalExpiry now key ttlMs).1) : Touches on s t key := by
  obtain ⟨-, hmax, hroll, hctr⟩ := finish_eq _ config now key ttlMs ht
  refine ⟨hmax, ?_, ?_⟩
  · rw [hroll, hctr, if_pos rfl, counter_modifyRecord, if_pos rfl]
    exact CounterStep.duplicate
  · intro k hk
    rw [hroll, hctr, if_neg hk, counter_modifyRecord, if_neg hk]
    exact ⟨rfl, rfl⟩

lemma touches_refl (on : Bool) (key : Key) : Touches on s s key :=
  ⟨rfl, .read, fun _ _ => ⟨rfl, rfl⟩⟩

lemma touches_windowedSum (on : Bool) (key : Key) (startMs endMs : ℕ) :
    Touches on s (s.windowedSum key startMs endMs).1 key where
  maxSize := rfl
  here := by
    have hroll : (s.windowedSum key startMs endMs).1.rollups key = some (s.freshEntry key) :=
      Function.update_self ..
    rw [hroll]
    unfold freshEntry
    split
    case h_1 entry hent =>
      split
      · exact .rebuilt
      · rw [← hent]
        exact .read
    case h_2 => exact .rebuilt
  elsewhere k hk := ⟨rfl, Function.update_of_ne hk _ _⟩

lemma touches_aggregateWindow (on : Bool) (key : Key) (startMs endMs : ℕ)
    (aggregator : Aggregator) :
    Touches on s (s.aggregateWindow config key startMs endMs aggregator).1 key ∧
      (s.aggregateWindow config key startMs endMs aggregator).1.controlStateUuid =
        s.controlStateUuid := by
  unfold aggregateWindow
  split
  · exact ⟨s.touches_windowedSum on key startMs endMs, rfl⟩
  · exact ⟨s.touches_refl on key, rfl⟩

lemma checkUuid_counter (now : ℕ) (familyKey : Key) (uuid : Option Bytes) :
    (s.checkUuid now familyKey uuid).1.counter = s.counter ∧
      (s.checkUuid now familyKey uuid).1.rollups = s.rollups ∧
      (s.checkUuid now familyKey uuid).1.controlStateMaxSize = s.controlStateMaxSize := by
  have hgc : (s.gcControlStateUuid now).counter = s.counter ∧
      (s.gcControlStateUuid now).rollups = s.rollups ∧
      (s.gcControlStateUuid now).controlStateMaxSize = s.controlStateMaxSize := by
    unfold gcControlStateUuid
    split <;> exact ⟨rfl, rfl, rfl⟩
  unfold checkUuid
  split
  · exact ⟨rfl, rfl, rfl⟩
  · split
    · exact ⟨rfl, rfl, rfl⟩
    · dsimp only
      split <;> exact hgc

end

end ShardState

/-- The counter that a write command writes to. -/
def counterWriteKey : Command → Option Key
  | .controlStateIncrement key _ _ => some key
  | .controlStateIncrementWithOptions key _ _ _ _ => some key
  | .controlStateSet family key _ _ => some (controlStateFamilyKey family key)
  | .controlStateSetAndGet family key _ _ _ _ _ => some (controlStateFamilyKey family key)
  | .controlStateSetAndGetWithOptions family key _ _ _ _ _ _ _ _ =>
    some (controlStateFamilyKey family key)
  | _ => none

def carriesUuid : Command → Bool
  | .controlStateSetAndGetWithOptions _ _ _ _ _ _ _ _ _ uuid => uuid.any (· ≠ [])
  | _ => false

/-- What a command that touches counters does: lazy expiry, and a step on one counter. Only a write
with the ladder off can leave a ladder behind, and only one with a uuid changes the ledger. -/
lemma executeOnShard_touches (config : Config) (now : ℕ) (s : ShardState) {command : Command}
    (h : touchesCounters command = true) :
    ∃ s₁ on key, Frame { s with controlStateMaxSize := config.controlStateMaxSize } s₁ ∧
      Touches on s₁ (executeOnShard config now s command).shard key ∧
      (on = false → config.controlRollupEnabled = false ∧ counterWriteKey command = some key) ∧
      (carriesUuid command = false →
        (executeOnShard config now s command).shard.controlStateUuid = s₁.controlStateUuid) := by
  unfold executeOnShard
  generalize { s with controlStateMaxSize := config.controlStateMaxSize } = s
  have count (user key : Key) (bucket : ℕ) (amount : ℤ) (ttlMs : Option ℕ) :=
    touches_counted (s.removeIfExpired now user).1 config now key bucket amount ttlMs rfl
  have query (user key : Key) (startMs endMs : ℕ) (aggregator : Aggregator) :
      Touches true (s.removeIfExpired now user).1
        (s.queryCounter config now user key startMs endMs aggregator).shard key ∧
      (s.queryCounter config now user key startMs endMs aggregator).shard.controlStateUuid =
        (s.removeIfExpired now user).1.controlStateUuid := by
    dsimp only [queryCounter]
    split
    · exact ⟨touches_refl _ true key, rfl⟩
    · exact touches_aggregateWindow _ config true key startMs endMs aggregator
  have hfr := s.frame_removeIfExpired now
  cases command with
  | controlStateIncrement key timestampMs amount =>
    obtain ⟨_, rfl, hcount, hled⟩ := count key key timestampMs amount none
    exact ⟨_, _, key, hfr key, hcount, fun h => ⟨h, rfl⟩, fun _ => hled⟩
  | controlStateIncrementWithOptions key timestampMs amount precisionMs ttlMs =>
    obtain ⟨_, rfl, hcount, hled⟩ := count key key (bucketMs precisionMs timestampMs) amount ttlMs
    exact ⟨_, _, key, hfr key, hcount, fun h => ⟨h, rfl⟩, fun _ => hled⟩
  | controlStateSet family key timestampMs amount
  | controlStateSetAndGet family key timestampMs amount _ _ _ =>
    obtain ⟨_, rfl, hcount, hled⟩ :=
      count key (controlStateFamilyKey family key) timestampMs amount none
    exact ⟨_, _, _, hfr key, hcount, fun h => ⟨h, rfl⟩, fun _ => hled⟩
  | controlStateSetAndGetWithOptions family key timestampMs amount startMs endMs aggregator
      precisionMs ttlMs uuid =>
    obtain ⟨hctr, hroll, hmax⟩ := checkUuid_counter
      (s.removeIfExpired now key).1 now (controlStateFamilyKey family key) uuid
    have hplain : carriesUuid (.controlStateSetAndGetWithOptions family key timestampMs amount
        startMs endMs aggregator precisionMs ttlMs uuid) = false →
        (s.removeIfExpired now key).1.checkUuid now (controlStateFamilyKey family key) uuid =
          ((s.removeIfExpired now key).1, false) := by
      intro hnone
      cases uuid with
      | none => rfl
      | some uuid => exact if_pos (by simpa [carriesUuid] using hnone)
    dsimp only [controlStateSetAndGetWithOptions]
    cases hdup : ((s.removeIfExpired now key).1.checkUuid now (controlStateFamilyKey family key)
        uuid).2 with
    | true =>
      rw [Bool.not_true, Bool.and_false]
      refine ⟨_, true, _, hfr key, (touches_duplicate _ config now
        (controlStateFamilyKey family key) ttlMs true rfl).of_eq hctr hroll hmax, nofun,
        fun hnone => ?_⟩
      rw [hplain hnone] at hdup
      cases hdup
    | false =>
      rw [Bool.not_false, Bool.and_true]
      obtain ⟨_, rfl, hcount, hled⟩ := touches_counted _ config now
        (controlStateFamilyKey family key) (bucketMs precisionMs timestampMs) amount ttlMs rfl
      exact ⟨_, _, _, hfr key, hcount.of_eq hctr hroll hmax, fun h => ⟨h, rfl⟩,
        fun hnone => hled.trans (by rw [hplain hnone])⟩
  | controlStateCount key startMs endMs =>
    obtain ⟨hquery, hled⟩ := query key key startMs endMs .sum
    exact ⟨_, true, key, hfr key, hquery, nofun, fun _ => hled⟩
  | controlStateQuery key startMs endMs aggregator =>
    obtain ⟨hquery, hled⟩ := query key key startMs endMs aggregator
    exact ⟨_, true, key, hfr key, hquery, nofun, fun _ => hled⟩
  | controlStateFamilyQuery family key startMs endMs aggregator =>
    obtain ⟨hquery, hled⟩ := query key (controlStateFamilyKey family key) startMs endMs aggregator
    exact ⟨_, true, _, hfr key, hquery, nofun, fun _ => hled⟩
  | _ => cases h

/-- Every counter is in order and its ladder, if it has one, holds it. -/
structure Ladders (s : ShardState) : Prop where
  ordered : ∀ key, (s.counter key).Ordered
  sound : ∀ key, Sound s.controlStateMaxSize (s.counter key) (s.rollups key)

lemma Ladders.empty : Ladders .empty :=
  ⟨fun _ => List.Pairwise.nil, fun _ => sound_none _ _⟩

lemma Ladders.lower (h : Ladders s) {maxSize : ℕ} (hm : NotRaised s.controlStateMaxSize maxSize) :
    Ladders { s with controlStateMaxSize := maxSize } where
  ordered := h.ordered
  sound key e he := by
    obtain ⟨dropped, hholds⟩ := h.sound key e he
    exact ⟨dropped, hholds.lower hm⟩

lemma Ladders.frame (h : Ladders s) (hfr : Frame s s') : Ladders s' where
  ordered key := by
    rcases hfr.counters key with ⟨hc, -⟩ | ⟨hc, -⟩
    · rw [hc]
      exact h.ordered key
    · rw [hc]
      exact List.Pairwise.nil
  sound key := by
    rcases hfr.counters key with ⟨hc, hr⟩ | ⟨-, hr⟩
    · rw [hc, hr, hfr.maxSize]
      exact h.sound key
    · rw [hr]
      exact sound_none _ _

variable {series' : CounterSeries} {entry' : Option RollupEntry}

lemma CounterStep.ordered (h : CounterStep on m series entry series' entry')
    (hord : series.Ordered) : series'.Ordered := by
  cases h with
  | counted bucket amount => exact ordered_bounded (hord.bump bucket amount) m
  | duplicate => exact ordered_bounded hord m
  | read => exact hord
  | rebuilt => exact hord

lemma CounterStep.sound (h : CounterStep on m series entry series' entry')
    (hord : series.Ordered) (hsound : Sound m series entry) (hon : on = false → entry = none) :
    Sound m series' entry' := by
  cases h with
  | counted bucket amount =>
    cases on with
    | false =>
      rw [hon rfl]
      exact sound_none _ _
    | true =>
      intro e he
      obtain rfl := Option.some.inj he
      cases entry with
      | none => exact ⟨[], holds_build _ _⟩
      | some e => exact hsound.counted hord bucket amount
  | duplicate => exact hsound.duplicate hord
  | read => exact hsound
  | rebuilt =>
    intro e he
    obtain rfl := Option.some.inj he
    exact ⟨[], holds_build _ _⟩

lemma Ladders.touches {key : Key} (h : Ladders s) (ht : Touches on s s' key)
    (hon : on = false → s.rollups key = none) : Ladders s' where
  ordered k := by
    by_cases hk : k = key
    · rw [hk]
      exact ht.here.ordered (h.ordered key)
    · rw [(ht.elsewhere k hk).1]
      exact h.ordered k
  sound k := by
    rw [ht.maxSize]
    by_cases hk : k = key
    · rw [hk]
      exact ht.here.sound (h.ordered key) (h.sound key) hon
    · rw [(ht.elsewhere k hk).1, (ht.elsewhere k hk).2]
      exact h.sound k

/-- What happens to a shard: a command under the configuration of the moment, or a sweep. -/
inductive Event where
  | command (config : Config) (now : ℕ) (command : Command)
  | sweep (now : ℕ) (request : ShardState.ShardExpirySweepRequest)

def ShardState.step (s : ShardState) : Event → ShardState
  | .command config now command => (executeOnShard config now s command).shard
  | .sweep now request => s.sweepExpiredRecordsWithRequest now request

def ShardState.run (s : ShardState) (events : List Event) : ShardState := events.foldl step s

/-- The bound is not raised, and a counter that has a ladder is not written with the ladder off. -/
def Steady (s : ShardState) : Event → Prop
  | .command config _ command =>
    NotRaised s.controlStateMaxSize config.controlStateMaxSize ∧
      (config.controlRollupEnabled = false →
        ∀ key, counterWriteKey command = some key → s.rollups key = none)
  | .sweep _ _ => True

/-- Every event of a run is steady in the state it meets. -/
def SteadyRun (s : ShardState) : List Event → Prop
  | [] => True
  | event :: events => Steady s event ∧ SteadyRun (s.step event) events

lemma Ladders.step (h : Ladders s) {event : Event} (hsteady : Steady s event) :
    Ladders (s.step event) := by
  cases event with
  | sweep now request => exact h.frame (erodes_frame.sweep s now request)
  | command config now command =>
    have hlow := h.lower hsteady.1
    cases htouch : touchesCounters command with
    | false => exact hlow.frame (executeOnShard_frame config now s htouch)
    | true =>
      obtain ⟨s₁, on, key, hfr, htouches, hon, -⟩ := executeOnShard_touches config now s htouch
      apply (hlow.frame hfr).touches htouches
      intro hoff
      obtain ⟨hconfig, hkey⟩ := hon hoff
      have hnone := hsteady.2 hconfig key hkey
      rcases hfr.counters key with ⟨-, hr⟩ | ⟨-, hr⟩
      · rw [hr]
        exact hnone
      · exact hr

lemma Ladders.run (h : Ladders s) {events : List Event} (hsteady : SteadyRun s events) :
    Ladders (s.run events) := by
  induction events generalizing s with
  | nil => exact h
  | cons event events ih => exact ih (h.step hsteady.1) hsteady.2

lemma Ladders.windowedSum_eq (h : Ladders s) (key : Key) (startMs endMs : ℕ) :
    (s.windowedSum key startMs endMs).2 = scanSum (s.counter key) startMs endMs := by
  have hbuilt := (holds_build s.controlStateMaxSize (s.counter key)).rangeSum_eq (h.ordered key)
    startMs endMs
  unfold windowedSum freshEntry
  split
  case h_1 entry hent =>
    split
    · exact hbuilt
    · obtain ⟨dropped, hholds⟩ := h.sound key entry hent
      exact hholds.rangeSum_eq (h.ordered key) startMs endMs
  case h_2 => exact hbuilt

/-- In a steady run the windowed sum answered through the ladder is the sum of the stored points in
the window. -/
theorem windowedSum_eq_of_steady (events : List Event) (hsteady : SteadyRun .empty events)
    (key : Key) (startMs endMs : ℕ) :
    ((ShardState.empty.run events).windowedSum key startMs endMs).2 =
      scanSum ((ShardState.empty.run events).counter key) startMs endMs :=
  (Ladders.empty.run hsteady).windowedSum_eq key startMs endMs

def ladderConfig (on : Bool) (maxSize : ℕ) : Config := ⟨true, on, true, maxSize⟩

def increment (on : Bool) (maxSize timestampMs : ℕ) : Event :=
  .command (ladderConfig on maxSize) 1 (.controlStateIncrement [] timestampMs 1)

/-- Three seconds of which the bound keeps two, and an old point that it drops at once. -/
def keptTwo : List Event :=
  [increment true 2 1000, increment true 2 2000, increment true 2 3000, increment true 2 1500]

theorem windowedSum_keptTwo : SteadyRun .empty keptTwo ∧
    ((ShardState.empty.run keptTwo).windowedSum [] 0 9999).2 =
      scanSum ((ShardState.empty.run keptTwo).counter []) 0 9999 := by
  have hsteady : SteadyRun .empty keptTwo :=
    ⟨⟨by decide, nofun⟩, ⟨by decide, nofun⟩, ⟨by decide, nofun⟩, ⟨by decide, nofun⟩, trivial⟩
  exact ⟨hsteady, windowedSum_eq_of_steady keptTwo hsteady [] 0 9999⟩

/-- No deadlines, and a ladder over the counter with the empty name that is up to date. -/
structure Folded (s : ShardState) (series : CounterSeries) : Prop where
  deadlines : s.expiresAt = fun _ => none
  counter : s.counter [] = series
  cells : ∀ e, s.rollups [] = some e →
    e.builtLen = series.length ∧ ∀ cell, e.cells cell = cellSum series cell

lemma increment_eq (hdead : s.expiresAt = fun _ => none) (on : Bool) (t : ℕ) :
    (s.step (increment on 0 t)).expiresAt = (fun _ => none) ∧
      (s.step (increment on 0 t)).counter [] = (s.counter []).bump t 1 ∧
      (s.step (increment on 0 t)).rollups [] =
        if on then some (recorded (s.rollups []) ((s.counter []).bump t 1) t 1)
        else s.rollups [] := by
  obtain ⟨s₀, hs₀⟩ : ∃ s₀ : ShardState, s₀ = { s with controlStateMaxSize := 0 } := ⟨_, rfl⟩
  have hexpired : s₀.removeIfExpired 1 [] = (s₀, false) := by
    apply removeIfExpired_eq_self
    intro k _
    rw [hs₀, hdead]
    rfl
  have hpersist : (s₀.addToCounter [] t 1).persistControlStateBlock (ladderConfig on 0) [] =
      (s₀.addToCounter [] t 1, []) := by
    rw [hs₀]
    rfl
  have hstep : s.step (increment on 0 t) =
      if on then (s₀.addToCounter [] t 1).recordIncrement [] t 1 else s₀.addToCounter [] t 1 := by
    have hcmd : s.step (increment on 0 t) =
        (s₀.controlStateIncrement (ladderConfig on 0) 1 [] t 1).shard := by
      rw [hs₀]
      rfl
    rw [hcmd]
    unfold controlStateIncrement
    rw [hexpired]
    dsimp only
    rw [hpersist]
    rfl
  have hctr : (s₀.addToCounter [] t 1).counter [] = (s.counter []).bump t 1 := by
    rw [hs₀]
    rfl
  rw [hstep]
  cases on with
  | true =>
    refine ⟨by rw [hs₀]; exact hdead, hctr, ?_⟩
    rw [if_pos rfl, hs₀]
    rfl
  | false =>
    refine ⟨by rw [hs₀]; exact hdead, hctr, ?_⟩
    rw [hs₀]
    rfl

lemma Folded.increment (h : Folded s series) (t : ℕ) :
    Folded (s.step (Shard.increment true 0 t)) (series.bump t 1) ∧
      ∃ e, (s.step (Shard.increment true 0 t)).rollups [] = some e := by
  obtain ⟨hdead, hctr, hroll⟩ := increment_eq h.deadlines true t
  rw [h.counter] at hctr hroll
  refine ⟨⟨hdead, hctr, ?_⟩, _, hroll⟩
  intro e he
  obtain rfl := Option.some.inj (hroll.symm.trans he)
  cases hent : s.rollups [] with
  | none => exact ⟨rfl, build_apply _⟩
  | some entry =>
    refine ⟨rfl, ?_⟩
    intro cell
    rw [cellSum_bump, ← (h.cells entry hent).2 cell]
    exact foldCells_apply entry.cells t 1 cell

lemma Folded.run (h : Folded s series) (t : ℕ) (instants : List ℕ) :
    Folded (s.run ((instants ++ [t]).map (Shard.increment true 0)))
      ((instants ++ [t]).foldl (fun series t => series.bump t 1) series) ∧
      ∃ e, (s.run ((instants ++ [t]).map (Shard.increment true 0))).rollups [] = some e := by
  induction instants generalizing s series with
  | nil => exact h.increment t
  | cons u instants ih => exact ih (h.increment u).1

/-- 283 instants of one second, the oldest last. -/
def oneSecond : List ℕ := (1999 :: (range 281).map (1281 - ·)) ++ [1000]

/-- An increment at each of the instants with the ladder on, and one more with the ladder off. -/
def missedIncrement : List Event := oneSecond.map (increment true 0) ++ [increment false 0 1000]

/-- The points of one second, and the points after one more at the oldest of them. -/
def oneSecondSeries : CounterSeries := oneSecond.foldl (fun series t => series.bump t 1) []

lemma rangeSum_oneSecond (cells : Cells) :
    rangeSum cells (oneSecondSeries.bump 1000 1) 1000 1999 = cells (.second, 1000) := by
  have hhead : (oneSecondSeries.bump 1000 1).head? = some (1000, 2) := by decide +kernel
  have hlast : (oneSecondSeries.bump 1000 1).getLast? = some (1999, 1) := by decide +kernel
  have hlen : (oneSecondSeries.bump 1000 1).length = 283 := by decide +kernel
  have hedge : edgeSum (oneSecondSeries.bump 1000 1) 1000 1000 = 0 := by decide +kernel
  unfold rangeSum
  rw [hhead, hlast, hlen]
  -- the whole window is one cell of the finest level
  simp [hedge, levelWidth, saturatingSucc, u64Max, tilingSteps, tile, coarsestFit, levels]

lemma folded_oneSecond : Folded (empty.run (oneSecond.map (increment true 0))) oneSecondSeries ∧
      ∃ e, (empty.run (oneSecond.map (increment true 0))).rollups [] = some e := by
  have hempty : Folded .empty [] := ⟨rfl, rfl, nofun⟩
  unfold oneSecondSeries oneSecond
  exact hempty.run 1000 (1999 :: (range 281).map (1281 - ·))

/-- After the last increment the series has kept its length, so the ladder is taken for fresh. -/
lemma freshEntry_missedIncrement : ∃ e, (empty.run missedIncrement).freshEntry [] = e ∧
      (∀ cell, e.cells cell = cellSum oneSecondSeries cell) ∧
      (empty.run missedIncrement).counter [] = oneSecondSeries.bump 1000 1 := by
  obtain ⟨hfolded, e, he⟩ := folded_oneSecond
  obtain ⟨hlen, hcells⟩ := hfolded.cells e he
  obtain ⟨-, hctr, hroll⟩ := increment_eq hfolded.deadlines false 1000
  have hrun : empty.run missedIncrement =
      (empty.run (oneSecond.map (increment true 0))).step (increment false 0 1000) := by
    unfold missedIncrement run
    rw [foldl_append]
    rfl
  have hkept : (oneSecondSeries.bump 1000 1).length = oneSecondSeries.length := by decide +kernel
  rw [← hrun, hfolded.counter] at hctr
  rw [← hrun, he] at hroll
  refine ⟨e, ?_, hcells, hctr⟩
  unfold freshEntry
  rw [hroll, hctr]
  exact if_neg (not_not.mpr (hlen.trans hkept.symm))

theorem windowedSum_missedIncrement :
    ((ShardState.empty.run missedIncrement).windowedSum [] 1000 1999).2 ≠
      scanSum ((ShardState.empty.run missedIncrement).counter []) 1000 1999 := by
  obtain ⟨e, hfresh, hcells, hcounter⟩ := freshEntry_missedIncrement
  have hsum : cellSum oneSecondSeries (.second, 1000) = 283 := by decide +kernel
  have hscan : scanSum (oneSecondSeries.bump 1000 1) 1000 1999 = 284 := by decide +kernel
  have hanswer : ((empty.run missedIncrement).windowedSum [] 1000 1999).2 = 283 := by
    unfold windowedSum
    rw [hfresh, hcounter]
    dsimp only
    rw [rangeSum_oneSecond, hcells, hsum]
  rw [hanswer, hcounter, hscan]
  decide

end TemporalStore.Shard
