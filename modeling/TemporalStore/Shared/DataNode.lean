import TemporalStore.Shared.Outages

/-! # Commands executed on a data node and mirrored to the shared log (`data_node.rs`) -/

namespace TemporalStore.Shared

open Lib List StorageWriter

variable {σ κ : Type}

structure ExecuteResponse where
  ok : Bool
  /-- The value of an integer response. -/
  integer : Option ℤ
  deriving DecidableEq

/-- The engine of a data node, as far as its requests see it. -/
structure NodeEngine (σ κ : Type) where
  batchExecute : σ → List κ → σ × List ExecuteResponse
  isWriteCommand : κ → Bool
  /-- The command is a `HashMultiSetIfTimestampOlder`. -/
  conditional : κ → Bool

namespace NodeEngine

variable (engine : NodeEngine σ κ)

def commandWasApplied (command : κ) (response : ExecuteResponse) : Bool :=
  response.ok && (!engine.conditional command || response.integer.any (0 < ·)) &&
    engine.isWriteCommand command

/-- The commands of a request that `mirror_writes` will give to the writer. -/
def appliedCommands (commands : List κ) (responses : List ExecuteResponse) : List κ :=
  ((commands.zip responses).filter fun x => engine.commandWasApplied x.1 x.2).map Prod.fst

end NodeEngine

structure DataNode (σ κ : Type) where
  engine : σ
  /-- The commands that the engine has applied, in order. -/
  applied : List κ
  /-- What each request has yet to mirror; the requests in the order of their executions. -/
  unmirrored : List (List κ)
  writer : StorageWriter κ

inductive NodeEvent (κ : Type) where
  /-- The engine executes a request; a single command is a batch of one. -/
  | execute (commands : List κ)
  /-- A request gives its next command to the writer. -/
  | mirror (request : ℕ)
  | flush (maxEntries : ℕ)

namespace DataNode

variable (engine : NodeEngine σ κ) (cfg : WriterConfig κ) (shardId : ℕ)

def start (state : σ) : DataNode σ κ := ⟨state, [], [], .start⟩

def execute (n : DataNode σ κ) (commands : List κ) : DataNode σ κ :=
  let (state, responses) := engine.batchExecute n.engine commands
  { n with
    engine := state
    applied := n.applied ++ engine.appliedCommands commands responses
    unmirrored := n.unmirrored ++ [engine.appliedCommands commands responses] }

/-- `record_write` for the next command of a request. -/
def mirror (n : DataNode σ κ) (request : ℕ) : DataNode σ κ :=
  match n.unmirrored[request]? with
  | some (command :: rest) =>
    { n with
      unmirrored := n.unmirrored.set request rest
      writer := n.writer.write cfg shardId command [] }
  | _ => n

def step (n : DataNode σ κ) : NodeEvent κ → DataNode σ κ
  | .execute commands => n.execute engine commands
  | .mirror request => n.mirror cfg shardId request
  | .flush maxEntries => { n with writer := n.writer.flushPending cfg maxEntries [] }

def run (events : List (NodeEvent κ)) (n : DataNode σ κ) : DataNode σ κ :=
  events.foldl (step engine cfg shardId) n

/-- Whether a step may be taken: a request mirrors a command only when no request that was executed
before it has one left, and all commands have a wire encoding. -/
def Careful (n : DataNode σ κ) : NodeEvent κ → Prop
  | .execute commands => ∀ command ∈ commands, cfg.encodes command
  | .mirror request => ∀ commands ∈ n.unmirrored.take request, commands = []
  | .flush _ => True

def AllCareful : DataNode σ κ → List (NodeEvent κ) → Prop
  | _, [] => True
  | n, event :: events => n.Careful cfg event ∧ AllCareful (n.step engine cfg shardId event) events

instance (n : DataNode σ κ) (event : NodeEvent κ) : Decidable (n.Careful cfg event) :=
  match event with
  | .execute commands =>
    inferInstanceAs (Decidable (∀ command ∈ commands, cfg.encodes command = true))
  | .mirror request =>
    inferInstanceAs (Decidable (∀ commands ∈ n.unmirrored.take request, commands = []))
  | .flush _ => isTrue trivial

instance decidableAllCareful : ∀ (n : DataNode σ κ) (events : List (NodeEvent κ)),
    Decidable (AllCareful engine cfg shardId n events)
  | _, [] => isTrue trivial
  | n, event :: events =>
    haveI := decidableAllCareful (n.step engine cfg shardId event) events
    inferInstanceAs (Decidable (_ ∧ _))

/-- What was mirrored, and after it what is left of the requests in order, is what was applied. -/
structure InOrder (cfg : WriterConfig κ) (shardId : ℕ) (mirrored : List κ) (n : DataNode σ κ) :
    Prop where
  writer : StorageWriter.Mirrored cfg (mirrored.map fun c => (shardId, c)) n.writer
  applied : n.applied = mirrored ++ n.unmirrored.flatten
  encodes : ∀ command ∈ n.applied, cfg.encodes command

section Order

variable {engine cfg shardId} {mirrored : List κ} {n : DataNode σ κ}

lemma inOrder_start (state : σ) : InOrder cfg shardId [] (start state : DataNode σ κ) where
  writer := mirrored_start
  applied := rfl
  encodes := nofun

lemma mem_of_mem_appliedCommands {commands : List κ} {responses : List ExecuteResponse}
    {command : κ} (h : command ∈ engine.appliedCommands commands responses) :
    command ∈ commands := by
  obtain ⟨x, hx, rfl⟩ := mem_map.mp h
  exact (of_mem_zip (mem_of_mem_filter hx)).1

section

variable (h : InOrder cfg shardId mirrored n)
include h

lemma InOrder.execute {commands : List κ} (henc : ∀ command ∈ commands, cfg.encodes command) :
    InOrder cfg shardId mirrored (n.execute engine commands) where
  writer := h.writer
  applied := by
    change n.applied ++ _ = mirrored ++ (n.unmirrored ++ [_]).flatten
    rw [h.applied, flatten_append, flatten_singleton, append_assoc]
  encodes command hmem := by
    rcases mem_append.mp hmem with hmem | hmem
    · exact h.encodes command hmem
    · exact henc command (mem_of_mem_appliedCommands hmem)

lemma InOrder.mirror {request : ℕ}
    (hfirst : ∀ commands ∈ n.unmirrored.take request, commands = []) :
    ∃ mirrored', InOrder cfg shardId mirrored' (n.mirror cfg shardId request) := by
  rw [DataNode.mirror]
  split
  next command rest hrequest =>
    obtain ⟨hlt, hget⟩ := List.getElem?_eq_some_iff.mp hrequest
    obtain ⟨before, after, hsplit, hlen, hset⟩ : ∃ before after,
        n.unmirrored = before ++ n.unmirrored[request] :: after ∧ before.length = request ∧
          n.unmirrored.set request rest = before ++ rest :: after := exists_of_set hlt
    rw [hget] at hsplit
    have hbef : before.flatten = [] := by
      apply flatten_eq_nil_iff.mpr
      intro commands hmem
      apply hfirst commands
      rw [hsplit, ← hlen, take_left]
      exact hmem
    refine ⟨mirrored ++ [command], ?_, ?_, h.encodes⟩
    · rw [map_append]
      exact h.writer.write shardId command
    · rw [h.applied, hset, hsplit, flatten_append, flatten_append, hbef, nil_append, nil_append,
        flatten_cons, flatten_cons, append_assoc, cons_append, singleton_append]
  next => exact ⟨mirrored, h⟩

lemma InOrder.step {event : NodeEvent κ} (hcare : n.Careful cfg event) :
    ∃ mirrored', InOrder cfg shardId mirrored' (n.step engine cfg shardId event) := by
  cases event with
  | execute commands => exact ⟨mirrored, h.execute hcare⟩
  | mirror request => exact h.mirror hcare
  | flush maxEntries => exact ⟨mirrored, h.writer.flush maxEntries, h.applied, h.encodes⟩

lemma InOrder.run {events : List (NodeEvent κ)} (hcare : AllCareful engine cfg shardId n events) :
    ∃ mirrored', InOrder cfg shardId mirrored' (n.run engine cfg shardId events) := by
  induction events generalizing n mirrored with
  | nil => exact ⟨mirrored, h⟩
  | cons event events ih =>
    obtain ⟨mirrored', h'⟩ := h.step hcare.1
    exact ih h' hcare.2

lemma InOrder.replayWal (hflushed : n.writer.pending = []) :
    Shared.replayWal cfg.appendMode (n.writer.store shardId) shardId 0 =
      .ok (shardEntries shardId mirrored) := by
  apply h.writer.replayWal hflushed
  · intro x hx
    obtain ⟨command, hcmd, rfl⟩ := mem_map.mp hx
    apply h.encodes
    rw [h.applied]
    exact mem_append_left _ hcmd
  · exact numbered_entriesOf _
  · intro e
    refine ⟨fun he => ⟨he, shardId_of_mem_shardEntries he⟩, fun he => he.1⟩

end

end Order

/-- In a run whose requests are mirrored in the order of their executions the log lists the applied
commands in order, up to those that wait to be mirrored. -/
theorem run_mirrored (engine : NodeEngine σ κ) (cfg : WriterConfig κ) (shardId : ℕ) (state : σ)
    (events : List (NodeEvent κ)) (h : AllCareful engine cfg shardId (start state) events)
    (hflushed : ((start state).run engine cfg shardId events).writer.pending = []) :
    ∃ entries, replayWal cfg.appendMode
        (((start state).run engine cfg shardId events).writer.store shardId) shardId 0 =
          .ok entries ∧ ((start state).run engine cfg shardId events).applied =
        entries.map WalEntry.command ++
          ((start state).run engine cfg shardId events).unmirrored.flatten := by
  obtain ⟨mirrored, hrun⟩ := (inOrder_start state).run h
  refine ⟨_, hrun.replayWal hflushed, ?_⟩
  rw [map_command_shardEntries]
  exact hrun.applied

/-- An engine with one register; a command is the value to set. -/
def register : NodeEngine ℕ ℕ where
  batchExecute state commands := (commands.getLast?.getD state, commands.map fun _ => ⟨true, none⟩)
  isWriteCommand _ := true
  conditional _ := false

theorem run_mirrored_register : ∃ entries, replayWal .protobufAppendBlob
        (((start 0).run register StorageWriter.syncConfig 1
          [.execute [7], .execute [8], .mirror 0, .mirror 1]).writer.store 1) 1 0 = .ok entries ∧
      ((start 0).run register StorageWriter.syncConfig 1
          [.execute [7], .execute [8], .mirror 0, .mirror 1]).applied =
        entries.map WalEntry.command ++ ((start 0).run register StorageWriter.syncConfig 1
            [.execute [7], .execute [8], .mirror 0, .mirror 1]).unmirrored.flatten :=
  run_mirrored register syncConfig 1 0 [.execute [7], .execute [8], .mirror 0,
    .mirror 1] (by decide) rfl

/-- The register holds 8, but the log lists 8 before 7. -/
theorem not_mirrored_overtaken : ¬∃ entries, replayWal .protobufAppendBlob
        (((start 0).run register StorageWriter.syncConfig 1
          [.execute [7], .execute [8], .mirror 1, .mirror 0]).writer.store 1) 1 0 = .ok entries ∧
      ((start 0).run register StorageWriter.syncConfig 1
          [.execute [7], .execute [8], .mirror 1, .mirror 0]).applied =
        entries.map WalEntry.command ++ ((start 0).run register StorageWriter.syncConfig 1
            [.execute [7], .execute [8], .mirror 1, .mirror 0]).unmirrored.flatten := by
  rintro ⟨entries, hreplay, happlied⟩
  have hlog : replayWal .protobufAppendBlob
      (((start 0).run register syncConfig 1
        [.execute [7], .execute [8], .mirror 1, .mirror 0]).writer.store 1) 1 0 =
          .ok [⟨1, 1, 8⟩, ⟨1, 2, 7⟩] := rfl
  cases hreplay
  cases happlied

end DataNode

end TemporalStore.Shared
