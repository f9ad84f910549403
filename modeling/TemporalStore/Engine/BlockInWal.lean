import TemporalStore.EngineWal.Record

/-! # Blocks that live in log records (`engine/block_in_wal.rs`) -/

namespace TemporalStore.BlockInWal

open Lib List EngineWal Option

/-- The object, and which element of it. -/
abbrev BlockKey := ℕ × Option String

def namesBlock (key : BlockKey) (block : StagedBlock) : Bool :=
  block.objectId == key.1 && block.elementName == key.2

/-- The first block of this name, or the first of the whole object. -/
def findBlock (key : BlockKey) (blocks : List StagedBlock) : Option StagedBlock :=
  (blocks.find? (namesBlock key)).or (blocks.find? (namesBlock (key.1, none)))

/-- What was written under the name, in order. -/
def writesOf (key : BlockKey) (blocks : List StagedBlock) : List Bytes :=
  (blocks.filter (namesBlock key)).map (·.bytes)

/-- The registry and the decoded records of a log whose records do not change. -/
structure Resident (log : ℕ → Option (List StagedBlock)) where
  registry : BlockKey → Option ℕ
  recordLru : List (ℕ × List StagedBlock)
  decoded : ∀ entry ∈ recordLru, log entry.1 = some entry.2

/-- A record is registered when it is appended or replayed, and a single block when the index is
loaded. -/
inductive Event where
  | register (logId : ℕ) (blocks : List StagedBlock)
  | registerAt (key : BlockKey) (logId : ℕ)
  | deregister (key : BlockKey)
  | clearShard
  | read (key : BlockKey)

/-- The block stays where it is registered. -/
def Event.Spares (key : BlockKey) : Event → Prop
  | .register _ blocks => blocks.any (namesBlock key) = false
  | .registerAt other _ => other ≠ key
  | .deregister other => other ≠ key
  | .clearShard => False
  | .read _ => True

namespace Resident

variable {log : ℕ → Option (List StagedBlock)} (s : Resident log) (key : BlockKey)

def registerRecord (logId : ℕ) (blocks : List StagedBlock) : Resident log :=
  { s with registry := blocks.foldl (fun map block =>
      Function.update map (block.objectId, block.elementName) (some logId)) s.registry }

def registerAt (logId : ℕ) : Resident log :=
  { s with registry := Function.update s.registry key (some logId) }

def deregister : Resident log := { s with registry := Function.update s.registry key none }

def clearShard : Resident log := { s with registry := fun _ => none }

/-- At most eight records are kept. -/
def remember {logId : ℕ} {blocks : List StagedBlock} (h : log logId = some blocks) :
    Resident log where
  registry := s.registry
  recordLru := s.recordLru.drop (if 8 ≤ s.recordLru.length then 1 else 0) ++ [(logId, blocks)]
  decoded := forall_mem_append.mpr
    ⟨fun entry hentry => s.decoded entry (mem_of_mem_drop hentry), forall_mem_singleton.mpr h⟩

def readBlock : Resident log × Option Bytes :=
  match (s.registry key).or (s.registry (key.1, none)) with
  | none => (s, none)
  | some logId =>
    match (s.recordLru.find? (·.1 == logId)).bind fun entry => findBlock key entry.2 with
    | some block => (s, some block.bytes)
    | none =>
      match h : log logId with
      | none => (s, none)
      | some blocks => (s.remember h, (findBlock key blocks).map (·.bytes))

def step (s : Resident log) : Event → Resident log
  | .register logId blocks => s.registerRecord logId blocks
  | .registerAt key logId => s.registerAt key logId
  | .deregister key => s.deregister key
  | .clearShard => s.clearShard
  | .read key => (s.readBlock key).1

lemma readBlock_snd : (s.readBlock key).2 =
    ((s.registry key).or (s.registry (key.1, none))).bind fun logId =>
      (log logId).bind fun blocks => (findBlock key blocks).map (·.bytes) := by
  unfold readBlock
  split
  case h_1 hnone => rw [hnone, bind_none]
  case h_2 logId hsome =>
    rw [hsome, bind_some]
    split
    case h_1 block hblock =>
      obtain ⟨entry, hentry, hfind⟩ := bind_eq_some_iff.mp hblock
      have hid : entry.1 = logId := by simpa using find?_some hentry
      rw [← hid, s.decoded entry (mem_of_find?_eq_some hentry), bind_some, hfind]
      rfl
    case h_2 =>
      split
      case h_1 hlog => rw [hlog]; rfl
      case h_2 blocks hlog =>
        change (findBlock key blocks).map (·.bytes) = _
        rw [hlog]
        rfl

lemma registry_readBlock : (s.readBlock key).1.registry = s.registry := by
  unfold readBlock
  split
  · rfl
  · split
    · rfl
    · split <;> rfl

lemma registry_registerRecord (logId : ℕ) (blocks : List StagedBlock) :
    (s.registerRecord logId blocks).registry key =
      if blocks.any (namesBlock key) then some logId else s.registry key := by
  unfold registerRecord
  generalize s.registry = map
  induction blocks generalizing map with
  | nil => rfl
  | cons block blocks ih =>
    have hnames : key = (block.objectId, block.elementName) ↔ namesBlock key block = true := by
      simp [namesBlock, Prod.ext_iff, @eq_comm _ key.1, @eq_comm _ key.2]
    refine (ih _).trans ?_
    simp only [any_cons, Function.update_apply, hnames, Bool.or_eq_true]
    split_ifs <;> tauto

lemma registry_step {event : Event} (h : event.Spares key) :
    (s.step event).registry key = s.registry key := by
  cases event with
  | register logId blocks =>
    rw [step, registry_registerRecord, h]
    rfl
  | registerAt other logId => exact Function.update_of_ne h.symm _ _
  | deregister other => exact Function.update_of_ne h.symm _ _
  | clearShard => exact h.elim
  | read other => rw [step, registry_readBlock]

/-- Of a shard that has registered this record alone, a read returns a block exactly if the record
carries one of the name or of the whole object. -/
lemma readBlock_registerRecord_isSome (logId : ℕ) {blocks : List StagedBlock}
    (hlog : log logId = some blocks) :
    ((s.clearShard.registerRecord logId blocks).readBlock key).2.isSome ↔
      ∃ block ∈ blocks, block.objectId = key.1 ∧
        (block.elementName = key.2 ∨ block.elementName = none) := by
  have hfound : (findBlock key blocks).isSome ↔ ∃ block ∈ blocks, block.objectId = key.1 ∧
      (block.elementName = key.2 ∨ block.elementName = none) := by
    simp only [findBlock, isSome_or, Bool.or_eq_true, find?_isSome, namesBlock, Bool.and_eq_true,
      beq_iff_eq, and_or_left, exists_or]
  have hany (name : BlockKey) :
      blocks.any (namesBlock name) = (blocks.find? (namesBlock name)).isSome := by
    rw [Bool.eq_iff_iff, find?_isSome, List.any_eq_true]
  -- the record is looked up exactly if it has such a block
  have hid : ((s.clearShard.registerRecord logId blocks).registry key).or
      ((s.clearShard.registerRecord logId blocks).registry (key.1, none)) =
        (findBlock key blocks).map fun _ => logId := by
    rw [registry_registerRecord, registry_registerRecord, hany, hany, findBlock]
    cases blocks.find? (namesBlock key) <;> cases blocks.find? (namesBlock (key.1, none)) <;> rfl
  rw [readBlock_snd, hid, ← hfound]
  cases hblock : findBlock key blocks <;> simp [hlog, hblock]

end Resident

/-- A read goes through the record that was registered last for the block, whatever happens behind
that. It returns what was written under this name, and the last of it exactly if the first write of
the name in the record was of the same bytes. -/
theorem readBlock_last_iff {log : ℕ → Option (List StagedBlock)} (s : Resident log) (key : BlockKey)
    {i : ℕ} {blocks : List StagedBlock} (hlog : log i = some blocks)
    (hnamed : blocks.any (namesBlock key)) (later : List Event)
    (hlater : ∀ event ∈ later, event.Spares key) : ∃ bytes ∈ writesOf key blocks,
      ((later.foldl Resident.step (s.registerRecord i blocks)).readBlock key).2 = some bytes ∧
      (some bytes = (writesOf key blocks).getLast? ↔
        (writesOf key blocks).head? = (writesOf key blocks).getLast?) := by
  have hreg : (later.foldl Resident.step (s.registerRecord i blocks)).registry key = some i := by
    -- nothing later moves the block
    refine foldlRecOn (motive := fun t : Resident log => t.registry key = some i) later
      Resident.step ?_ fun t ht event hevent => ?_
    · rw [Resident.registry_registerRecord, if_pos hnamed]
    · rw [Resident.registry_step t key (hlater event hevent), ht]
  obtain ⟨first, hfirst⟩ := isSome_iff_exists.mp (find?_isSome.mpr (any_eq_true.mp hnamed))
  have hhead : (writesOf key blocks).head? = some first.bytes := by
    rw [writesOf, head?_map, head?_filter, hfirst]
    rfl
  refine ⟨first.bytes, mem_of_mem_head? hhead, ?_, by rw [hhead]⟩
  rw [Resident.readBlock_snd, hreg, some_or, bind_some, hlog, bind_some, findBlock, hfirst]
  rfl

/-- A field that is written twice in one batch. -/
def twoWrites (second : Byte) : List StagedBlock := [⟨7, some "f", [1]⟩, ⟨7, some "f", [second]⟩]

/-- The log with that record. -/
def twoWritesLog (second : Byte) : Resident fun _ => some (twoWrites second) :=
  ⟨fun _ => none, [], nofun⟩

theorem readBlock_last_sameBytes : ∃ bytes,
    (((twoWritesLog 1).registerRecord 0 (twoWrites 1)).readBlock (7, some "f")).2 = some bytes ∧
      some bytes = (writesOf (7, some "f") (twoWrites 1)).getLast? := by
  obtain ⟨bytes, -, hread, hlast⟩ :=
    readBlock_last_iff (twoWritesLog 1) (7, some "f") (i := 0) rfl rfl [] nofun
  exact ⟨bytes, hread, hlast.mpr rfl⟩

/-- The first of the two writes is read. -/
theorem readBlock_not_last :
    (((twoWritesLog 2).registerRecord 0 (twoWrites 2)).readBlock (7, some "f")).2 = some [1] ∧
      (writesOf (7, some "f") (twoWrites 2)).getLast? = some [2] :=
  ⟨rfl, rfl⟩

end TemporalStore.BlockInWal
