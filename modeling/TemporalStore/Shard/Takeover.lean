import Mathlib.Data.List.MinMax
import Mathlib.Data.Prod.Lex
import TemporalStore.Lib.Numbered
import TemporalStore.Shard.Replay

/-! # Taking a shard over (`POST /load`, `engine/engine_lifecycle.rs`, `shared_store.rs`) -/

namespace TemporalStore.Shard

open Lib List
open Option hiding sequence

structure Status where
  code : String
  message : String
  deriving DecidableEq

structure IndexFile where
  shard : ShardState
  appliedWalSequence : Option ℕ

def IndexFile.watermark (file : IndexFile) : ℕ := file.appliedWalSequence.getD 0

/-- What of a shard is in its index: neither the ladders nor the published bound. -/
def indexed (s : ShardState) : ShardState :=
  { s with rollups := fun _ => none, controlStateMaxSize := 0 }

structure BucketDumpManifest where
  manifestId : String
  walSequence : ℕ
  indexLogSequence : ℕ
  createdUnixMs : ℕ
  index : IndexFile

/-- The manifest with the highest sequence, the newest of those. Of equals it is the last that is
listed, as `max_by_key` has it. -/
def durableRecoveryBucketDumpManifestAt (manifests : List BucketDumpManifest) :
    Option BucketDumpManifest :=
  manifests.reverse.argmax fun manifest =>
    toLex (manifest.walSequence, toLex (manifest.indexLogSequence, manifest.createdUnixMs))

lemma mem_of_durableRecoveryBucketDumpManifestAt {manifests : List BucketDumpManifest}
    {manifest : BucketDumpManifest}
    (h : durableRecoveryBucketDumpManifestAt manifests = some manifest) : manifest ∈ manifests :=
  mem_reverse.mp (argmax_mem h)

/-- What a node has of a shard: the files, and the shard in memory while it is loaded. -/
structure ShardNode where
  index : Option IndexFile
  manifests : List BucketDumpManifest
  wal : List (ℕ × LogRecord)
  memory : Option IndexFile

/-- The shard in shared storage: its last checkpoint, the dump manifests, and the log entries behind
the checkpoint. -/
structure SharedShard where
  index : IndexFile
  manifests : List BucketDumpManifest
  tail : List (List OutcomeItem × Option Command)

def SyncConfig : Type := { config : Config // config.asyncStorage = false }

/-- What a load meets apart from the files: the clock and the configuration, whether the counters
are reconciled with their blocks, and whether the index can be written. -/
structure LoadConditions where
  clock : ℕ
  config : SyncConfig
  reconciled : Bool
  persisted : Bool

def lastSequence (wal : List (ℕ × LogRecord)) : ℕ := (wal.getLast?.map (·.1)).getD 0

def replayFrom (clock : ℕ) : ℕ → ShardState → List (ℕ × LogRecord) → Except Status ShardState
  | _, s, [] => .ok s
  | expected, s, (sequence, record) :: rest =>
    if sequence ≠ expected then
      .error ⟨"wal_replay_sequence_gap",
        s!"WAL replay hole during recovery: expected sequence {expected}, found {sequence}"⟩
    else replayFrom clock (expected + 1) (replayRecord clock s record) rest

namespace ShardNode

variable (node : ShardNode)

def recoveryBase : Option IndexFile × ℕ :=
  let baseWatermark := (node.index.map IndexFile.watermark).getD 0
  match durableRecoveryBucketDumpManifestAt node.manifests with
  | some manifest =>
    if baseWatermark < manifest.walSequence then (some manifest.index, manifest.walSequence)
    else (node.index, baseWatermark)
  | none => (node.index, baseWatermark)

def loadShardWith (conditions : LoadConditions) : ShardNode × Except Status Unit :=
  let (loaded, watermark) := node.recoveryBase
  let file := loaded.getD ⟨.empty, none⟩
  let pending := node.wal.filter (watermark < ·.1)
  match replayFrom conditions.clock (watermark + 1) (indexed file.shard) pending with
  | .error status => ({ node with memory := none }, .error status)
  | .ok shard =>
    let shard := if conditions.reconciled then shard.reconcileControlState else shard
    if pending.isEmpty then ({ node with memory := some ⟨shard, file.appliedWalSequence⟩ }, .ok ())
    else
      let file : IndexFile := ⟨shard, some (lastSequence pending)⟩
      ({ node with
        index := if conditions.persisted then some file else node.index
        memory := some file }, .ok ())

/-- A command; a write that changed something is logged, and a synchronous one moves the anchor. -/
def execute (config : Config) (now : ℕ) (command : Command) : ShardNode :=
  match node.memory with
  | none => node
  | some file =>
    let outcome := executeOnShard config now file.shard command
    if isWriteCommand command && outcome.mutated then
      let sequence := lastSequence node.wal + 1
      { node with
        wal := node.wal ++ [(sequence, ⟨command, outcome.items, now, config⟩)]
        memory := some ⟨outcome.shard,
          if config.asyncStorage then file.appliedWalSequence else some sequence⟩ }
    else { node with memory := some { file with shard := outcome.shard } }

/-- `apply_replayed_wal_entry`: results are installed in memory, a bare command is executed. -/
def applyReplayedWalEntry (conditions : LoadConditions) (node : ShardNode) :
    List OutcomeItem × Option Command → ShardNode
  | ([], none) => node
  | ([], some command) => node.execute conditions.config.1 conditions.clock command
  | (outcomes, _) =>
    { node with memory := node.memory.map fun file =>
        { file with shard := file.shard.applyOutcome outcomes } }

/-- `restore_shared_index_before_load`. -/
def restoreSharedIndex (shared : SharedShard) : ShardNode :=
  { node with
    index := some shared.index
    manifests := node.manifests ++ shared.manifests.filter fun manifest =>
      !(node.manifests.any (·.manifestId == manifest.manifestId)) }

/-- `POST /load`. Only a node without a log of the shard restores it from shared storage. -/
def load (shared : SharedShard) (conditions : LoadConditions) : ShardNode × Except Status Unit :=
  if 0 < lastSequence node.wal then node.loadShardWith conditions
  else
    let (node, status) := (node.restoreSharedIndex shared).loadShardWith conditions
    match status with
    | .error status => (node, .error status)
    | .ok () => (shared.tail.foldl (applyReplayedWalEntry conditions) node, .ok ())

end ShardNode

/-- The sequences of a log, or of a part of it, without holes. -/
abbrev Sequenced (start : ℕ) (wal : List (ℕ × LogRecord)) : Prop := Numbered (·.1) start wal

variable {wal : List (ℕ × LogRecord)}

lemma lastSequence_of_sequenced (h : Sequenced 1 wal) : lastSequence wal = wal.length := by
  unfold lastSequence
  cases hlast : wal.getLast? with
  | none =>
    rw [getLast?_eq_none_iff.mp hlast]
    rfl
  | some entry =>
    have hkey := h.key_getLast hlast
    change entry.1 = wal.length
    omega

lemma replayFrom_of_sequenced {start : ℕ} (h : Sequenced start wal) (clock : ℕ) (s : ShardState) :
    replayFrom clock start s wal = .ok (replayWal clock s (wal.map (·.2))) := by
  induction wal generalizing start s with
  | nil => rfl
  | cons entry wal ih =>
    obtain ⟨hent, htail⟩ := h.tail
    unfold replayFrom
    rw [if_neg (by simpa using hent), ih htail]
    rfl

/-- A node, with the states of the shard it had in memory or restored, each with the number of
writes it had logged by then. -/
structure TakeoverState where
  node : ShardNode
  states : List (ℕ × ShardState)

/-- The process stops and loads the shard, a command comes, or the shard is persisted, as its index
file or as a dump. -/
inductive NodeEvent where
  | load (shared : SharedShard) (conditions : LoadConditions)
  | execute (config : SyncConfig) (now : ℕ) (command : Command)
  | flush
  | dump (manifestId : String) (indexLogSequence createdUnixMs : ℕ)

variable (node : ShardNode)

/-- `flush_shard_index`: the index is anchored at the last record of the log. -/
def ShardNode.flush : ShardNode :=
  match node.memory with
  | none => node
  | some file =>
    let flushed : IndexFile := { file with appliedWalSequence := some (lastSequence node.wal) }
    { node with index := some flushed, memory := some flushed }

/-- `create_bucket_dump_manifest`: an index without an anchor is dumped at the end of the log. -/
def ShardNode.dump (manifestId : String) (indexLogSequence createdUnixMs : ℕ) : ShardNode :=
  match node.memory with
  | none => node
  | some file => { node with manifests := node.manifests ++
      [⟨manifestId, file.appliedWalSequence.getD (lastSequence node.wal), indexLogSequence,
        createdUnixMs, file⟩] }

def ShardNode.handle : NodeEvent → ShardNode
  | .load shared conditions => (node.load shared conditions).1
  | .execute config now command => node.execute config.1 now command
  | .flush => node.flush
  | .dump manifestId indexLogSequence createdUnixMs =>
    node.dump manifestId indexLogSequence createdUnixMs

def ShardNode.inMemory : List (ℕ × ShardState) :=
  (node.memory.map fun file => (node.wal.length, file.shard)).toList

/-- What an event restores from shared storage: the index, and what is loaded from it. -/
def ShardNode.restoredBy : NodeEvent → List (ℕ × ShardState)
  | .load shared conditions =>
    if 0 < lastSequence node.wal then []
    else ((node.restoreSharedIndex shared).loadShardWith conditions).1.inMemory ++
      [(0, shared.index.shard)]
  | _ => []

namespace TakeoverState

def step (s : TakeoverState) (event : NodeEvent) : TakeoverState :=
  ⟨s.node.handle event,
    (s.node.handle event).inMemory ++ (s.node.restoredBy event ++ s.states)⟩

def run (s : TakeoverState) (events : List NodeEvent) : TakeoverState := events.foldl step s

/-- Loading the shard serves every write that was logged: it starts from a state that had executed
the first of them and replays the others. -/
def Serves (s : TakeoverState) (shared : SharedShard) (conditions : LoadConditions) : Prop :=
  ∃ node file k state, s.node.load shared conditions = (node, .ok ()) ∧ node.memory = some file ∧
    (k, state) ∈ s.states ∧
    file.shard =
      let shard := replayWal conditions.clock (indexed state) ((s.node.wal.drop k).map (·.2))
      if conditions.reconciled then shard.reconcileControlState else shard

end TakeoverState

/-- A shared checkpoint whose index and dumps count no log records. -/
def SharedShard.Unanchored (shared : SharedShard) : Prop :=
  shared.index.watermark = 0 ∧ ∀ manifest ∈ shared.manifests, manifest.walSequence = 0

/-- A node that has no log restores only such checkpoints. -/
def CarefulTakeover (node : ShardNode) : NodeEvent → Prop
  | .load shared _ => 0 < lastSequence node.wal ∨ shared.Unanchored
  | _ => True

def CarefulTakeovers : TakeoverState → List NodeEvent → Prop
  | _, [] => True
  | s, event :: events => CarefulTakeover s.node event ∧ CarefulTakeovers (s.step event) events

/-- A persisted state that had executed the first `k` logged writes. -/
def Covered (node : ShardNode) (states : List (ℕ × ShardState)) (k : ℕ) (shard : ShardState) :
    Prop :=
  k ≤ node.wal.length ∧ (k, shard) ∈ states

structure Files (node : ShardNode) (states : List (ℕ × ShardState)) : Prop where
  sequences : Sequenced 1 node.wal
  anchored : ∀ file, node.memory = some file → file.watermark = node.wal.length
  index : node.memory ≠ none ∨ node.wal ≠ [] →
    ∃ file, node.index = some file ∧ Covered node states file.watermark file.shard
  manifests : ∀ manifest ∈ node.manifests, manifest.walSequence = 0 ∨
    manifest.index.watermark = manifest.walSequence ∧
      Covered node states manifest.walSequence manifest.index.shard

variable {node node' : ShardNode} {states states' : List (ℕ × ShardState)}

lemma Covered.mono {k : ℕ} {shard : ShardState} (h : Covered node states k shard)
    (hwal : node.wal.length ≤ node'.wal.length) (hsub : ∀ p ∈ states, p ∈ states') :
    Covered node' states' k shard :=
  ⟨h.1.trans hwal, hsub _ h.2⟩

section

variable (h : Files node states)
include h

lemma Files.mono (hsub : ∀ p ∈ states, p ∈ states') : Files node states' where
  __ := h
  index hsome := (h.index hsome).imp fun _ hfile => hfile.imp_right (·.mono le_rfl hsub)
  manifests manifest hman :=
    (h.manifests manifest hman).imp_right (·.imp_right (·.mono le_rfl hsub))

lemma Files.grow (hmemory : node.memory ≠ none)
    (hidx : node'.index = node.index) (hmans : node'.manifests = node.manifests)
    (hwal : node.wal.length ≤ node'.wal.length) (hseqs : Sequenced 1 node'.wal)
    (hanch : ∀ file, node'.memory = some file → file.watermark = node'.wal.length) :
    Files node' states where
  sequences := hseqs
  anchored := hanch
  index _ := by
    obtain ⟨file, hfile, hcov⟩ := h.index (.inl hmemory)
    exact ⟨file, hidx.trans hfile, hcov.mono hwal fun _ hp => hp⟩
  manifests manifest hman := (h.manifests manifest (hmans ▸ hman)).imp_right
    (·.imp_right (·.mono hwal fun _ hp => hp))

lemma Files.execute (config : SyncConfig) (now : ℕ) (command : Command) :
    Files (node.execute config.1 now command) states := by
  unfold ShardNode.execute
  split
  · exact h
  · rename_i file hfile
    have hmemory : node.memory ≠ none := by
      rw [hfile]
      exact some_ne_none file
    dsimp only
    split
    · refine h.grow hmemory rfl rfl ?_ ?_ ?_
      · simp
      · apply h.sequences.append_one
        rw [lastSequence_of_sequenced h.sequences, Nat.add_comm]
      · rintro _ ⟨⟩
        rw [config.2]
        simp [IndexFile.watermark, lastSequence_of_sequenced h.sequences]
    · refine h.grow hmemory rfl rfl le_rfl h.sequences ?_
      rintro _ ⟨⟩
      exact h.anchored file hfile

lemma Files.applyReplayedWalEntry (conditions : LoadConditions)
    (entry : List OutcomeItem × Option Command) :
    Files (node.applyReplayedWalEntry conditions entry) states := by
  unfold ShardNode.applyReplayedWalEntry
  split
  · exact h
  · exact h.execute _ _ _
  · cases hmemory : node.memory with
    | none =>
      rw [map_none, ← hmemory]
      exact h
    | some file =>
      refine h.grow ?_ rfl rfl le_rfl h.sequences ?_
      · rw [hmemory]
        exact some_ne_none file
      · rintro _ ⟨⟩
        exact h.anchored file hmemory

lemma Files.tail (conditions : LoadConditions) (tail : List (List OutcomeItem × Option Command)) :
    Files (tail.foldl (ShardNode.applyReplayedWalEntry conditions) node) states := by
  induction tail generalizing node with
  | nil => exact h
  | cons entry tail ih => exact ih (h.applyReplayedWalEntry conditions entry)

lemma Files.recoveryBase {base : IndexFile} (hidx : node.index = some base)
    (hbase : Covered node states base.watermark base.shard) :
    ∃ file, node.recoveryBase = (some file, file.watermark) ∧
      Covered node states file.watermark file.shard := by
  unfold ShardNode.recoveryBase
  dsimp only
  rw [hidx, map_some]
  split
  · rename_i manifest hman
    split
    · rcases h.manifests manifest (mem_of_durableRecoveryBucketDumpManifestAt hman) with
        hzero | ⟨hwm, hcov⟩
      · omega
      · refine ⟨manifest.index, ?_⟩
        rw [hwm]
        exact ⟨rfl, hcov⟩
    · exact ⟨base, rfl, hbase⟩
  · exact ⟨base, rfl, hbase⟩

end

/-- What a load makes of the state it starts from and the records it replays. -/
def loadedShard (conditions : LoadConditions) (state : ShardState)
    (records : List (ℕ × LogRecord)) : ShardState :=
  let shard := replayWal conditions.clock (indexed state) (records.map (·.2))
  if conditions.reconciled then shard.reconcileControlState else shard

lemma Files.loadShardWith (h : Files node states) {base : IndexFile}
    (hidx : node.index = some base) (hbase : Covered node states base.watermark base.shard)
    (conditions : LoadConditions) :
    ∃ node' file k state, node.loadShardWith conditions = (node', .ok ()) ∧
      node'.memory = some file ∧ (k, state) ∈ states ∧
      file.shard = loadedShard conditions state (node.wal.drop k) ∧ node'.wal = node.wal ∧
      Files node' ((node.wal.length, file.shard) :: states) := by
  obtain ⟨loaded, hrec, hle, hmem⟩ := h.recoveryBase hidx hbase
  have hpend : node.wal.filter (loaded.watermark < ·.1) = node.wal.drop loaded.watermark :=
    h.sequences.filter loaded.watermark
  have hseq : Sequenced (loaded.watermark + 1) (node.wal.drop loaded.watermark) := by
    rw [Nat.add_comm]
    exact h.sequences.drop _
  have hrepl := replayFrom_of_sequenced hseq conditions.clock (indexed loaded.shard)
  have hmono : Files node ((node.wal.length,
      loadedShard conditions loaded.shard (node.wal.drop loaded.watermark)) :: states) :=
    h.mono fun _ hp => mem_cons_of_mem _ hp
  unfold ShardNode.loadShardWith
  simp only [hrec, getD_some, hpend, hrepl]
  by_cases hempty : node.wal.drop loaded.watermark = []
  · -- the state reflects every record
    have hlen : loaded.watermark = node.wal.length :=
      Nat.le_antisymm hle (drop_eq_nil_iff.mp hempty)
    rw [if_pos (isEmpty_iff.mpr hempty)]
    refine ⟨_, _, _, _, rfl, rfl, hmem, rfl, rfl, hmono.sequences, ?_, ?_, hmono.manifests⟩
    · rintro _ ⟨⟩
      exact hlen
    · intro _
      exact ⟨base, hidx, hbase.1, mem_cons_of_mem _ hbase.2⟩
  · rw [if_neg (by simpa using hempty)]
    have hlast : lastSequence (node.wal.drop loaded.watermark) = node.wal.length := by
      rw [← lastSequence_of_sequenced h.sequences, lastSequence, lastSequence, getLast?_drop,
        if_neg]
      rw [← drop_eq_nil_iff]
      exact hempty
    refine ⟨_, _, _, _, rfl, rfl, hmem, rfl, rfl, hmono.sequences, ?_, ?_, hmono.manifests⟩
    · rintro _ ⟨⟩
      exact hlast
    · intro _
      split
      · refine ⟨_, rfl, hlast.le, ?_⟩
        rw [hlast]
        exact mem_cons_self
      · exact ⟨base, hidx, hbase.1, mem_cons_of_mem _ hbase.2⟩

lemma Files.restore (h : Files node states) (hempty : node.wal = []) {shared : SharedShard}
    (hshared : shared.Unanchored) :
    Files (node.restoreSharedIndex shared) ((0, shared.index.shard) :: states) where
  __ := h
  index _ := by
    refine ⟨shared.index, rfl, ?_⟩
    rw [hshared.1]
    exact ⟨Nat.zero_le _, mem_cons_self⟩
  manifests manifest hman := by
    left
    rcases mem_append.mp hman with hlocal | hrest
    · -- a node without a log has no dump of its own that counts records
      rcases h.manifests manifest hlocal with hzero | ⟨-, hle, -⟩
      · exact hzero
      · rw [hempty] at hle
        exact Nat.le_zero.mp hle
    · exact hshared.2 manifest (mem_of_mem_filter hrest)

/-- What an event leaves: the files stand for states of the shard, and so does the shard in
memory. -/
def TakeoverState.Holds (s : TakeoverState) : Prop :=
  Files s.node s.states ∧ ∀ file, s.node.memory = some file →
    (s.node.wal.length, file.shard) ∈ s.states

lemma mem_inMemory {file : IndexFile} (h : node.memory = some file) :
    (node.wal.length, file.shard) ∈ node.inMemory := by
  unfold ShardNode.inMemory
  rw [h]
  exact mem_singleton_self _

variable {s : TakeoverState}

lemma TakeoverState.holds_step {event : NodeEvent} (h : Files (s.node.handle event)
      ((s.node.handle event).inMemory ++ (s.node.restoredBy event ++ s.states))) :
    (s.step event).Holds :=
  ⟨h, fun _ hfile => mem_append_left _ (mem_inMemory hfile)⟩

lemma TakeoverState.Holds.load (h : s.Holds) (shared : SharedShard) (conditions : LoadConditions)
    (hcare : CarefulTakeover s.node (.load shared conditions)) :
    (s.step (.load shared conditions)).Holds := by
  apply holds_step
  by_cases hlog : 0 < lastSequence s.node.wal
  · have hne : s.node.wal ≠ [] := by
      rintro hnil
      rw [hnil] at hlog
      exact Nat.lt_irrefl 0 hlog
    obtain ⟨base, hidx, hbase⟩ := h.1.index (.inr hne)
    obtain ⟨node', file, k, state, hload, hmemory, -, -, hwal, hfiles⟩ :=
      h.1.loadShardWith hidx hbase conditions
    have hnode : s.node.handle (.load shared conditions) = node' := by
      simp only [ShardNode.handle, ShardNode.load, if_pos hlog, hload]
    rw [hnode]
    apply hfiles.mono
    intro p hp
    rcases mem_cons.mp hp with rfl | hp
    · apply mem_append_left
      rw [← hwal]
      exact mem_inMemory hmemory
    · exact mem_append_right _ (mem_append_right _ hp)
  · have hempty : s.node.wal = [] := by
      rw [lastSequence_of_sequenced h.1.sequences] at hlog
      exact length_eq_zero_iff.mp (Nat.eq_zero_of_not_pos hlog)
    have hshared := hcare.resolve_left hlog
    have hrest := h.1.restore hempty hshared
    have hcov : Covered (s.node.restoreSharedIndex shared)
        ((0, shared.index.shard) :: s.states) shared.index.watermark shared.index.shard := by
      rw [hshared.1]
      exact ⟨Nat.zero_le _, mem_cons_self⟩
    obtain ⟨node', file, k, state, hload, hmemory, -, -, hwal, hfiles⟩ :=
      hrest.loadShardWith rfl hcov conditions
    have hnode : s.node.handle (.load shared conditions) =
        shared.tail.foldl (ShardNode.applyReplayedWalEntry conditions) node' := by
      simp only [ShardNode.handle, ShardNode.load, if_neg hlog, hload]
    have hstates : s.node.restoredBy (.load shared conditions) =
        node'.inMemory ++ [(0, shared.index.shard)] := by
      simp only [ShardNode.restoredBy, if_neg hlog, hload]
    rw [hnode, hstates]
    apply (hfiles.tail conditions shared.tail).mono
    intro p hp
    apply mem_append_right
    rw [append_assoc]
    rcases mem_cons.mp hp with rfl | hp
    · apply mem_append_left
      rw [← hwal]
      exact mem_inMemory hmemory
    · exact mem_append_right _ hp

section

variable (h : Files node states)
  (hstates : ∀ file, node.memory = some file → (node.wal.length, file.shard) ∈ states)
include h hstates

lemma Files.flush : Files node.flush states := by
  unfold ShardNode.flush
  split
  · exact h
  · rename_i file hfile
    have hlast := lastSequence_of_sequenced h.sequences
    refine ⟨h.sequences, ?_, fun _ => ⟨_, rfl, ?_⟩, h.manifests⟩
    · rintro _ ⟨⟩
      exact hlast
    · change Covered _ states (lastSequence node.wal) file.shard
      rw [hlast]
      exact ⟨le_rfl, hstates file hfile⟩

lemma Files.dump (manifestId : String) (indexLogSequence createdUnixMs : ℕ) :
    Files (node.dump manifestId indexLogSequence createdUnixMs) states := by
  unfold ShardNode.dump
  split
  · exact h
  · rename_i file hfile
    refine ⟨h.sequences, h.anchored, h.index, ?_⟩
    intro manifest hman
    rcases mem_append.mp hman with hold | hnew
    · exact h.manifests manifest hold
    · cases mem_singleton.mp hnew
      have hanch := h.anchored file hfile
      have hseq : file.appliedWalSequence.getD (lastSequence node.wal) = node.wal.length := by
        rw [lastSequence_of_sequenced h.sequences]
        unfold IndexFile.watermark at hanch
        cases happlied : file.appliedWalSequence with
        | none => rfl
        | some applied => rwa [happlied] at hanch
      refine .inr ⟨hanch.trans hseq.symm, ?_⟩
      dsimp only
      rw [hseq]
      exact ⟨le_rfl, hstates file hfile⟩

end

lemma TakeoverState.holds_of_files {event : NodeEvent}
    (h : Files (s.node.handle event) s.states) : (s.step event).Holds :=
  holds_step (h.mono fun _ hp => mem_append_right _ (mem_append_right _ hp))

lemma TakeoverState.Holds.step (h : s.Holds) {event : NodeEvent}
    (hcare : CarefulTakeover s.node event) : (s.step event).Holds := by
  cases event with
  | load shared conditions => exact h.load shared conditions hcare
  | execute config now command => exact holds_of_files (h.1.execute config now command)
  | flush => exact holds_of_files (h.1.flush h.2)
  | dump manifestId indexLogSequence createdUnixMs =>
    exact holds_of_files (h.1.dump h.2 manifestId indexLogSequence createdUnixMs)

lemma TakeoverState.Holds.run (h : s.Holds) {events : List NodeEvent}
    (hcare : CarefulTakeovers s events) : (s.run events).Holds := by
  induction events generalizing s with
  | nil => exact h
  | cons event events ih => exact ih (h.step hcare.1) hcare.2

structure ShardNode.Fresh (node : ShardNode) : Prop where
  wal : node.wal = []
  memory : node.memory = none
  manifests : ∀ manifest ∈ node.manifests, manifest.walSequence = 0

lemma ShardNode.Fresh.holds (h : node.Fresh) : TakeoverState.Holds ⟨node, []⟩ := by
  have hnone (file : IndexFile) : node.memory ≠ some file := by
    rw [h.memory]
    exact nofun
  refine ⟨⟨?_, fun file hfile => absurd hfile (hnone file), ?_, ?_⟩,
    fun file hfile => absurd hfile (hnone file)⟩
  · rw [h.wal]
    rfl
  · rintro (hmemory | hwal)
    · exact absurd h.memory hmemory
    · exact absurd h.wal hwal
  · exact fun manifest hman => .inl (h.manifests manifest hman)

def emptyNode : ShardNode := ⟨none, [], [], none⟩

def loadSync : LoadConditions := ⟨1, ⟨⟨false, false, false, 0⟩, rfl⟩, false, true⟩

def checkpointAt (sequence : ℕ) : SharedShard := ⟨⟨.empty, some sequence⟩, [], []⟩

def takeoverAndWrite (sequence : ℕ) : List NodeEvent :=
  [.load (checkpointAt sequence) loadSync, .execute loadSync.config 2 (.stringSet [1] [7])]

end TemporalStore.Shard
