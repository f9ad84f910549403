import TemporalStore.Wal.RefineRead

namespace TemporalStore.Wal

open Lib LogFraming List Log

variable {β ρ : Type}

/-- One step of a history. An append says how far its roll gets if one is due: if not to its end,
the process stops there and another one opens the files. -/
inductive Op (β : Type) where
  | append (kind : AppendKind) (body : β) (now : ℕ) (stop : RollEnd)
  | appendBatch (bodies : List β) (now : ℕ) (stop : RollEnd)
  | replay (record : WalRecord β) (now : ℕ)
  | reclaim (retain : ℕ) (anchor : DurableIndexAnchor)
  | setFloor (floor : Option ℕ)
  | reopen

structure History (β : Type) where
  store : WalStore
  /-- Every record ever appended, in order, with its log id. -/
  given : List (ℕ × WalRecord β)
  /-- Those that no reclaim has taken. -/
  live : List (ℕ × WalRecord β)
  /-- Those that a reclaim has taken. -/
  reclaimed : List (ℕ × WalRecord β)

namespace History

def start : History β := ⟨WalStore.empty, [], [], []⟩

/-- The store as it is after an append that stopped where `stop` says. -/
def settled (s : WalStore) : RollEnd → WalStore
  | .complete => s
  | .afterRename | .afterCreate => s.reopened

def record (h : History β) (s : WalStore) (records : List (ℕ × WalRecord β)) : History β :=
  ⟨s, h.given ++ records, h.live ++ records, h.reclaimed⟩

/-- A reclaim takes the log ids below where the log now starts and those below where the active
piece now starts, if they lay in it. -/
def takes (oldBase : ℕ) (s : WalStore) (report : GcReport) (logId : ℕ) : Bool :=
  decide (logId < (s.sealed.head?.map (·.startsAt)).getD report.baseOffset) ||
    decide (oldBase ≤ logId ∧ logId < report.baseOffset)

variable (cfg : WalConfig) (codec : WalCodec β ρ) (shardId : ℕ)

def step (h : History β) : Op β → Except WalError (History β)
  | .append kind body now stop => do
    let (s, r, logId) ← kind.run cfg codec h.store body now stop
    return h.record (settled s stop) [(logId, r)]
  | .appendBatch bodies now stop => do
    let (s, records) ← appendBatchAtomic cfg codec h.store bodies now stop
    return h.record (settled s stop) records
  | .replay r now => do
    let (s, report) ← appendReplayedRecord cfg codec h.store r now
    if report.appended then
      let logId ← logIdAt s report.offset
      return h.record s [(logId, r)]
    else return { h with store := s }
  | .reclaim retain anchor => do
    let (oldBase, _) ← readWalBase h.store.active
    let (s, report) ← gcBeforeSequence cfg codec h.store shardId retain anchor
    return { h with
      store := s
      live := h.live.filter fun r => !takes oldBase s report r.1
      reclaimed := h.reclaimed ++ h.live.filter fun r => takes oldBase s report r.1 }
  | .setFloor floor => return { h with store := { h.store with blockRetentionFloor := floor } }
  | .reopen => return { h with store := h.store.reopened }

def run (h : History β) (ops : List (Op β)) : Except WalError (History β) :=
  ops.foldlM (step cfg codec shardId) h

variable {cfg codec shardId} in
lemma step_reclaim {h : History β} {retain oldBase headerLen : ℕ} {anchor : DurableIndexAnchor}
    {s : WalStore} {report : GcReport}
    (hread : readWalBase h.store.active = .ok (oldBase, headerLen))
    (hgc : gcBeforeSequence cfg codec h.store shardId retain anchor = .ok (s, report)) :
    h.step cfg codec shardId (.reclaim retain anchor) = .ok { h with
        store := s
        live := h.live.filter fun r => !takes oldBase s report r.1
        reclaimed := h.reclaimed ++ h.live.filter fun r => takes oldBase s report r.1 } := by
  rw [step, hread]
  rw [hgc]
  rfl

end History

/-- The log id of the record resolves to the record's bytes. -/
def WalStore.Holds (codec : WalCodec β ρ) (s : WalStore) (r : ℕ × WalRecord β) : Prop :=
  readAtLogId s r.1 (frameOf codec r.2).length = .ok (some (frameOf codec r.2))

instance (codec : WalCodec β ρ) (s : WalStore) (r : ℕ × WalRecord β) :
    Decidable (s.Holds codec r) :=
  inferInstanceAs (Decidable (_ = _))

/-- The sequence from which on a reclaim has to keep the records of a history. -/
def History.retentionBound (h : History β) (shardId retain : ℕ) (anchor : DurableIndexAnchor) : ℕ :=
  min (min (min retain (anchor.ceiling shardId))
    ((h.live.map fun r => r.2.sequence).foldl max 0)) (h.store.blockRetentionFloor.getD u64Max)

namespace Log

def settled (l : Log β) : RollEnd → Log β
  | .complete => l
  | .afterRename | .afterCreate => l.reopened

variable (cfg : WalConfig) (codec : WalCodec β ρ) (shardId : ℕ)

def after (l : Log β) : Op β → Log β
  | .append _ body now stop => (l.appended codec cfg body now stop).settled stop
  | .appendBatch bodies now stop => (l.appendedBatch codec cfg bodies now stop).settled stop
  | .replay r now => l.replayed codec r now
  | .reclaim retain anchor => l.reclaimed codec cfg (min retain (anchor.ceiling shardId))
  | .setFloor floor => { l with floor }
  | .reopen => l.reopened

/-- The step leaves the log legible and its sequences rising: an append meets `CanAppend`, also
every record of a batch, a replayed record `CanReplay` and a reclaim `ReclaimOk`. -/
def Allows (l : Log β) : Op β → Prop
  | .append _ body now _ => l.CanAppend codec body now
  | .appendBatch bodies now _ => l.CanAppendAll codec bodies now
  | .replay r now => l.CanReplay codec r now
  | .reclaim retain anchor => l.ReclaimOk codec cfg (min retain (anchor.ceiling shardId))
  | .setFloor _ => True
  | .reopen => True

/-- Every step of the history is allowed where it is made. -/
def AllowsAll : Log β → List (Op β) → Prop
  | _, [] => True
  | l, op :: ops => l.Allows cfg codec shardId op ∧ AllowsAll (l.after cfg codec shardId op) ops

def afterAll (l : Log β) (ops : List (Op β)) : Log β := ops.foldl (after cfg codec shardId) l

variable {cfg codec shardId} in
lemma allowsAll_append {l : Log β} {ops more : List (Op β)} :
    l.AllowsAll cfg codec shardId (ops ++ more) ↔ l.AllowsAll cfg codec shardId ops ∧
      (l.afterAll cfg codec shardId ops).AllowsAll cfg codec shardId more := by
  induction ops generalizing l with
  | nil => simp [AllowsAll, afterAll]
  | cons op ops ih =>
    rw [cons_append, AllowsAll, AllowsAll, ih, and_assoc]
    rfl

end Log

namespace Log

variable {cfg : WalConfig} {codec : WalCodec β ρ} {l : Log β} {logId : ℕ}

lemma frontier_ensured (l : Log β) : (l.ensured codec).frontier codec = l.frontier codec := by
  unfold ensured
  split
  · next hblank =>
    rw [frontier, frontier, if_pos hblank.1]
    rfl
  · rfl

section

variable (h : l.Unheld codec logId)
include h

lemma Unheld.ensured : (l.ensured codec).Unheld codec logId where
  sealed := by
    unfold Log.ensured
    split <;> exact h.sealed
  below := by rw [frontier_ensured]; exact h.below

lemma Unheld.place (hblank : l.current.IsBlank → l.sealed = []) (record : WalRecord β) (now : ℕ) :
    (l.place codec record now).Unheld codec logId where
  sealed := h.sealed
  below := by
    have hfull : ¬(l.place codec record now).current.IsBlank := by
      simp [place_current, Piece.IsBlank]
    rw [frontier_of_not_blank hfull]
    by_cases hb : l.current.IsBlank
    · -- An empty log has no log ids behind it.
      have hbelow := h.below
      rw [frontier, if_pos hb, sealedStop, hblank hb] at hbelow
      simp at hbelow
    · exact h.lt_base hb

lemma Unheld.placeAll (hblank : l.current.IsBlank → l.sealed = []) (now : ℕ) (bodies : List β) :
    (l.placeAll codec now bodies).Unheld codec logId := by
  induction bodies generalizing l with
  | nil => exact h
  | cons body bodies ih =>
    refine ih (h.place hblank _ now) ?_
    intro hnow
    simp [place_current, Piece.IsBlank] at hnow

lemma Unheld.rolled (cfg : WalConfig) (stop : RollEnd) :
    (l.rolled codec cfg stop).Unheld codec logId := by
  by_cases hdue : cfg.segmentBytes = 0 ∨ cellsLen codec l.current.cells < cfg.segmentBytes
  · rw [show l.rolled codec cfg stop = l from if_pos hdue]
    exact h
  obtain ⟨hfull, hrolled⟩ := rolled_of_due stop hdue
  have hbase := h.lt_base fun hblank => hfull hblank.2
  have hstop : l.current.base ≤ l.current.stop codec := Nat.le_add_right _ _
  have hsealedStop : l.current.stop codec ≤ (l.rolled codec cfg stop).sealedStop codec :=
    stop_le_sealedStop codec _ (by rw [hrolled]; simp)
  constructor
  · intro p hp
    rw [hrolled] at hp
    rw [mem_append, mem_singleton] at hp
    rcases hp with hp | rfl
    · exact h.sealed p hp
    · exact Or.inl hbase
  · cases stop with
    | complete =>
      rw [hrolled]
      exact lt_of_lt_of_le hbase hstop
    | afterRename | afterCreate =>
      rw [frontier, if_pos (by rw [hrolled]; exact ⟨rfl, rfl⟩)]
      omega

lemma Unheld.reclaimed (hwf : l.WF codec) {retain : ℕ} (hok : l.ReclaimOk codec cfg retain) :
    (l.reclaimed codec cfg retain).Unheld codec logId := by
  cases hact : l.active.isNone with
  | true =>
    rw [Log.reclaimed, if_pos hact]
    exact h
  | false =>
    obtain ⟨covered, left, hseal, -, heq⟩ := hwf.reclaimed_eq cfg retain hact
    have hbase := base_le_rewritten codec cfg l retain
    have hfull : ¬l.current.IsBlank := by
      intro hb
      have hbelow := h.below
      rw [frontier, if_pos hb, sealedStop, hok.headed hact hb] at hbelow
      simp at hbelow
    have hlt := h.lt_base hfull
    rw [heq]
    constructor
    · intro p hp
      exact h.sealed p (by rw [hseal]; exact mem_append_right _ hp)
    · have hfull' : ¬(l.rewritten codec cfg retain).IsBlank := by
        rw [rewritten]
        split
        · simp [Piece.IsBlank]
        · exact hfull
      exact lt_of_lt_of_eq (lt_of_lt_of_le hlt hbase) (if_neg hfull').symm

end

lemma unheld_of_takes (hwf : l.WF codec) {retain : ℕ} (hok : l.ReclaimOk codec cfg retain)
    {r : ℕ × WalRecord β} (hr : r ∈ l.records codec)
    (htakes : l.takes (l.reclaimed codec cfg retain) r.1 = true) :
    (l.reclaimed codec cfg retain).Unheld codec r.1 := by
  have hwf' := hwf.reclaimed hok
  cases hact : l.active.isNone with
  | true =>
    have hall := hwf.records_of_active_none hact
    rw [filter_eq_self] at hall
    have hno := hall r hr
    rw [reclaimed, if_pos hact] at htakes
    simp [htakes] at hno
  | false =>
    obtain ⟨covered, left, hseal, -, heq⟩ := hwf.reclaimed_eq cfg retain hact
    have hblank : ¬l.current.IsBlank := by
      intro hb
      rw [records_eq, hok.headed hact hb, Piece.records, hb.2] at hr
      simp [recordsFrom] at hr
    have hleft : (l.reclaimed codec cfg retain).sealed = left := by rw [heq]
    have hfull' : ¬(l.reclaimed codec cfg retain).current.IsBlank := by
      rw [heq]
      change ¬(l.rewritten codec cfg retain).IsBlank
      rw [rewritten]
      split
      · simp [Piece.IsBlank]
      · exact hblank
    have hstart := hwf'.start_le_current fun hb => absurd hb hfull'
    simp only [takes, Bool.or_eq_true, decide_eq_true_eq] at htakes
    constructor
    · intro p hp
      have hle := hwf'.start_le_sealed hp
      rw [hleft] at hp
      have hbeh := hwf.behind hblank p (by rw [hseal]; exact mem_append_right _ hp)
      omega
    · rw [frontier_of_not_blank hfull']
      omega

end Log

/-- The history of the store agrees with that of the log. -/
structure Tracks (cfg : WalConfig) (codec : WalCodec β ρ) (h : History β) (l : Log β) : Prop where
  wf : l.WF codec
  represents : Represents cfg codec h.store l
  live : h.live = l.records codec
  reclaimed : ∀ r ∈ h.reclaimed, l.Unheld codec r.1
  rising : (h.given.map fun r => r.2.sequence).Pairwise (· < ·)
  last : ∀ r ∈ h.given, r.2.sequence ≤ l.lastSequence
  kept : ∀ r ∈ h.given, r ∈ h.live ∨ r ∈ h.reclaimed
  known : ∀ r ∈ h.live, r ∈ h.given

lemma tracks_start (cfg : WalConfig) (codec : WalCodec β ρ) :
    Tracks cfg codec History.start empty where
  wf := wf_empty
  represents := represents_empty
  live := rfl
  reclaimed := by simp [History.start]
  rising := by simp [History.start]
  last := by simp [History.start]
  kept := by simp [History.start]
  known := by simp [History.start]

lemma Tracks.record {cfg : WalConfig} {codec : WalCodec β ρ} {h : History β} {l l' : Log β}
    (ht : Tracks cfg codec h l) {s : WalStore} {records : List (ℕ × WalRecord β)}
    (hwf : l'.WF codec) (hrep : Represents cfg codec s l')
    (hrecs : l'.records codec = l.records codec ++ records)
    (hunheld : ∀ logId, l.Unheld codec logId → l'.Unheld codec logId) :
    Tracks cfg codec (h.record s records) l' := by
  have hseqs := hwf.sequences
  rw [hrecs, map_append, pairwise_append] at hseqs
  have hlow (r : ℕ × WalRecord β) (hr : r ∈ records) : l.lastSequence < r.2.sequence := by
    rcases l.lastSequence_eq_zero_or_mem codec with hzero | ⟨q, hq, hlast⟩
    · rw [hzero]
      exact hwf.sequence_pos (by rw [hrecs]; exact mem_append_right _ hr)
    · rw [← hlast]
      exact hseqs.2.2 _ (mem_map_of_mem hq) _ (mem_map_of_mem hr)
  have hmono : l.lastSequence ≤ l'.lastSequence := by
    rcases l.lastSequence_eq_zero_or_mem codec with hzero | ⟨q, hq, hlast⟩
    · rw [hzero]
      exact Nat.zero_le _
    · rw [← hlast]
      exact hwf.sequence_le (by rw [hrecs]; exact mem_append_left _ hq)
  refine ⟨hwf, hrep, ?_, fun r hr => hunheld r.1 (ht.reclaimed r hr), ?_, ?_, ?_, ?_⟩
  · rw [hrecs, ← ht.live]
    rfl
  · rw [History.record, map_append, pairwise_append]
    refine ⟨ht.rising, hseqs.2.1, ?_⟩
    intro a ha b hb
    obtain ⟨g, hg, rfl⟩ := mem_map.mp ha
    obtain ⟨r, hr, rfl⟩ := mem_map.mp hb
    exact lt_of_le_of_lt (ht.last g hg) (hlow r hr)
  · intro r hr
    rw [History.record, mem_append] at hr
    rcases hr with hr | hr
    · exact le_trans (ht.last r hr) hmono
    · exact hwf.sequence_le (by rw [hrecs]; exact mem_append_right _ hr)
  · intro r hr
    rw [History.record, mem_append] at hr
    rcases hr with hr | hr
    · exact (ht.kept r hr).imp_left (mem_append_left _)
    · exact Or.inl (mem_append_right _ hr)
  · intro r hr
    rw [History.record, mem_append] at hr
    rw [History.record, mem_append]
    exact hr.imp_left (ht.known r)

section Steps

variable {cfg : WalConfig} {codec : WalCodec β ρ} {shardId : ℕ} {h : History β} {l : Log β}

lemma Log.Unheld.settled {logId : ℕ} (hl : l.Unheld codec logId) (stop : RollEnd) :
    (l.settled stop).Unheld codec logId := by
  cases stop with
  | complete => exact hl
  | afterRename => exact ⟨hl.sealed, hl.below⟩
  | afterCreate => exact ⟨hl.sealed, hl.below⟩

lemma Log.WF.settled (hwf : l.WF codec) (stop : RollEnd) : (l.settled stop).WF codec := by
  cases stop with
  | complete => exact hwf
  | afterRename => exact hwf.reopened
  | afterCreate => exact hwf.reopened

lemma Log.records_settled (l : Log β) (stop : RollEnd) :
    (l.settled stop).records codec = l.records codec := by
  cases stop <;> rfl

lemma Stored.settled {s : WalStore} (hs : Stored cfg codec s l) (stop : RollEnd)
    (hcomp : stop = .complete → Represents cfg codec s l) :
    Represents cfg codec (History.settled s stop) (l.settled stop) := by
  cases stop with
  | complete => exact hcomp rfl
  | afterRename => exact hs.reopened
  | afterCreate => exact hs.reopened

lemma Log.records_appended (l : Log β) (cfg : WalConfig) (body : β) (now : ℕ) (stop : RollEnd) :
    (l.appended codec cfg body now stop).records codec = l.records codec ++
      [((l.ensured codec).nextLogId codec (l.next body) now, l.next body)] := by
  rw [appended, records_rolled, records_place, records_ensured]

lemma Log.WF.appendedBatch {bodies : List β} {now : ℕ} (hwf : l.WF codec)
    (hok : l.CanAppendAll codec bodies now) (cfg : WalConfig) (stop : RollEnd) :
    (l.appendedBatch codec cfg bodies now stop).WF codec := by
  unfold Log.appendedBatch
  split
  · exact hwf
  · exact (hwf.ensured.placeAll hwf.sealed_of_ensured_blank hok).rolled cfg stop

lemma Log.records_appendedBatch (l : Log β) (cfg : WalConfig) (bodies : List β) (now : ℕ)
    (stop : RollEnd) : (l.appendedBatch codec cfg bodies now stop).records codec =
      l.records codec ++ (l.ensured codec).batchRecords codec now bodies := by
  unfold appendedBatch
  split
  · exact (append_nil _).symm
  · rw [records_rolled, records_placeAll, records_ensured]

lemma takes_eq {s : WalStore} {l' : Log β} {report : GcReport} (hrep : Represents cfg codec s l')
    (hbase : report.baseOffset = l'.current.base) (logId : ℕ) :
    History.takes l.current.base s report logId = l.takes l' logId := by
  have hstart : (s.sealed.head?.map (·.startsAt)).getD report.baseOffset = l'.start := by
    rw [hrep.sealed, hbase, start]
    cases l'.sealed <;> rfl
  rw [History.takes, takes, hstart, hbase]

/-- The files and the log take an operation together, where it is allowed. -/
def TracksStep (cfg : WalConfig) (codec : WalCodec β ρ) (shardId : ℕ) (h : History β) (l : Log β)
    (op : Op β) : Prop := l.Allows cfg codec shardId op →
  ∃ h', h.step cfg codec shardId op = .ok h' ∧ Tracks cfg codec h' (l.after cfg codec shardId op)

variable (ht : Tracks cfg codec h l)
include ht

lemma Tracks.append {kind : AppendKind} {body : β} {now : ℕ} {stop : RollEnd} :
    TracksStep cfg codec shardId h l (.append kind body now stop) := by
  intro hok
  obtain ⟨s', hrun, hstored, hcomp⟩ := ht.represents.run ht.wf kind hok stop
  refine ⟨_, by rw [History.step, hrun]; rfl, ?_⟩
  refine ht.record ((ht.wf.appended hok cfg stop).settled stop) (hstored.settled stop hcomp) ?_ ?_
  · rw [Log.after, Log.records_settled, Log.records_appended]
  · intro logId hl
    exact ((hl.ensured.place ht.wf.sealed_of_ensured_blank _ now).rolled cfg stop).settled stop

lemma Tracks.appendBatch {bodies : List β} {now : ℕ} {stop : RollEnd} :
    TracksStep cfg codec shardId h l (.appendBatch bodies now stop) := by
  intro hok
  obtain ⟨s', hrun, hstored, hcomp⟩ := ht.represents.appendBatchAtomic ht.wf hok stop
  refine ⟨_, by rw [History.step, hrun]; rfl, ?_⟩
  refine ht.record ((ht.wf.appendedBatch hok cfg stop).settled stop)
    (hstored.settled stop hcomp) ?_ ?_
  · rw [Log.after, Log.records_settled, Log.records_appendedBatch]
  · intro logId hl
    refine Log.Unheld.settled ?_ stop
    unfold appendedBatch
    split
    · exact hl
    · exact (hl.ensured.placeAll ht.wf.sealed_of_ensured_blank now _).rolled cfg stop

lemma Tracks.replay {r : WalRecord β} {now : ℕ} :
    TracksStep cfg codec shardId h l (.replay r now) := by
  intro hok
  obtain ⟨s', report, hrun, hrep, happ, hreport⟩ := ht.represents.appendReplayedRecord ht.wf r now
  have hwf := ht.wf.replayed hok
  rw [History.step, hrun, ok_bind]
  dsimp only
  by_cases hnew : l.lastSequence < r.sequence
  · have hplaced : l.replayed codec r now = (l.ensured codec).place codec r now :=
      if_neg (Nat.not_le_of_lt hnew)
    rw [hplaced] at hwf hrep
    rw [hreport hnew, hrep.toFollows.logIdAt_placed hwf]
    refine ⟨_, rfl, ?_⟩
    rw [Log.after, hplaced]
    refine ht.record hwf hrep ?_ ?_
    · rw [records_place, records_ensured]
    · exact fun logId hl => hl.ensured.place ht.wf.sealed_of_ensured_blank _ now
  · have hsame : l.replayed codec r now = l.ensured codec := if_pos (Nat.le_of_not_lt hnew)
    rw [hsame] at hwf hrep
    rw [if_neg (mt happ.mp hnew)]
    refine ⟨_, rfl, ?_⟩
    rw [Log.after, hsame]
    exact ⟨hwf, hrep, by rw [records_ensured]; exact ht.live,
      fun q hq => (ht.reclaimed q hq).ensured, ht.rising,
      fun q hq => by rw [lastSequence_ensured]; exact ht.last q hq, ht.kept,
      ht.known⟩

lemma Tracks.reclaim {retain : ℕ} {anchor : DurableIndexAnchor} :
    TracksStep cfg codec shardId h l (.reclaim retain anchor) := by
  intro hok
  obtain ⟨s', report, hrun, hrep, hbase⟩ :=
    ht.represents.gcBeforeSequence ht.wf shardId retain anchor
  refine ⟨_, History.step_reclaim (ht.represents.readWalBase_active ht.wf) hrun,
    ht.wf.reclaimed hok, hrep, ?_, ?_, ht.rising, ?_, ?_,
    fun r hr => ht.known r (mem_of_mem_filter hr)⟩
  · simp only [takes_eq hrep hbase]
    rw [ht.live, Log.after, ht.wf.records_reclaimed hok]
  · intro r hr
    simp only [takes_eq hrep hbase, mem_append, mem_filter] at hr
    rcases hr with hr | ⟨hr, htakes⟩
    · exact (ht.reclaimed r hr).reclaimed ht.wf hok
    · exact unheld_of_takes ht.wf hok (ht.live ▸ hr) htakes
  · intro r hr
    rw [Log.after, ht.wf.lastSequence_reclaimed]
    exact ht.last r hr
  · intro r hr
    simp only [mem_append, mem_filter]
    rcases ht.kept r hr with hlive | hgone
    · cases htakes : History.takes l.current.base s' report r.1 with
      | true => exact Or.inr (Or.inr ⟨hlive, rfl⟩)
      | false => exact Or.inl ⟨hlive, rfl⟩
    · exact Or.inr (Or.inl hgone)

lemma Tracks.step {op : Op β} : TracksStep cfg codec shardId h l op := by
  intro hok
  cases op with
  | append kind body now stop => exact ht.append hok
  | appendBatch bodies now stop => exact ht.appendBatch hok
  | replay r now => exact ht.replay hok
  | reclaim retain anchor => exact ht.reclaim hok
  | setFloor floor =>
    refine ⟨_, rfl, ?_⟩
    exact
      { ht with
        wf := { ht.wf with }
        represents := { ht.represents with floor := rfl }
        reclaimed := fun r hr => { ht.reclaimed r hr with } }
  | reopen =>
    refine ⟨_, rfl, ?_⟩
    exact
      { ht with
        wf := ht.wf.reopened
        represents := ht.represents.toStored.reopened
        reclaimed := fun r hr => { ht.reclaimed r hr with } }

/-- A history whose steps are all allowed runs to its end and keeps the histories in agreement. -/
lemma Tracks.run {ops : List (Op β)} (hok : l.AllowsAll cfg codec shardId ops) :
    ∃ h', h.run cfg codec shardId ops = .ok h' ∧
      Tracks cfg codec h' (l.afterAll cfg codec shardId ops) := by
  induction ops generalizing h l with
  | nil => exact ⟨h, rfl, ht⟩
  | cons op ops ih =>
    obtain ⟨h₁, hstep, ht₁⟩ := ht.step hok.1
    obtain ⟨h', hrun, ht'⟩ := ih ht₁ hok.2
    refine ⟨h', ?_, ht'⟩
    rw [History.run, foldlM_cons, hstep]
    exact hrun

end Steps

end TemporalStore.Wal
