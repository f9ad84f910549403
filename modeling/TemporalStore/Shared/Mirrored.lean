import TemporalStore.Shared.Publications

namespace TemporalStore.Shared

open Lib List

variable {κ : Type}

/-- The writes of a sequence of calls: shard and command. -/
def written (calls : List (WriterCall κ)) : List (ℕ × κ) :=
  calls.filterMap fun call =>
    match call with
    | .write shardId command _ => some (shardId, command)
    | .flush _ _ => none

/-- The commands written to one shard, in order. -/
def writtenTo (shardId : ℕ) (calls : List (WriterCall κ)) : List κ :=
  ((written calls).filter fun w => w.1 = shardId).map Prod.snd

/-- The entries of a sequence of writes: they are numbered from 1. -/
def entriesOf (writes : List (ℕ × κ)) : List (WalEntry κ) :=
  writes.mapIdx fun i w => ⟨w.1, i + 1, w.2⟩

lemma entriesOf_concat (writes : List (ℕ × κ)) (w : ℕ × κ) :
    entriesOf (writes ++ [w]) = entriesOf writes ++ [⟨w.1, writes.length + 1, w.2⟩] := by
  simp [entriesOf]

lemma numbered_entriesOf (writes : List (ℕ × κ)) :
    Numbered WalEntry.walIndex 1 (entriesOf writes) := by
  induction writes using reverseRecOn with
  | nil => exact numbered_nil
  | append_singleton writes w ih =>
    rw [entriesOf_concat]
    refine ih.append_one ?_
    simp only [entriesOf, length_mapIdx]
    omega

lemma map_entriesOf (writes : List (ℕ × κ)) :
    (entriesOf writes).map (fun e => (e.shardId, e.command)) = writes := by
  induction writes using reverseRecOn with
  | nil => rfl
  | append_singleton writes w ih => rw [entriesOf_concat, map_append, ih]; rfl

lemma mem_entriesOf {writes : List (ℕ × κ)} {e : WalEntry κ} (h : e ∈ entriesOf writes) :
    (e.shardId, e.command) ∈ writes := by
  rw [← map_entriesOf writes]
  exact mem_map_of_mem h

namespace StorageWriter

variable {cfg : WriterConfig κ} {writes : List (ℕ × κ)} {w : StorageWriter κ}

lemma leads_directPlan (cfg : WriterConfig κ) (entry : WalEntry κ) :
    Publishes cfg (directPlan cfg entry) [entry] := by
  rw [directPlan]
  split_ifs
  · exact leads_publishWalEntriesBatch cfg [entry]
  · exact leads_publishWalEntry cfg entry

lemma attempts_directPlan {entry : WalEntry κ} (h : cfg.encodes entry.command) :
    ∀ op ∈ directPlan cfg entry, 0 < op.attempts := by
  have hatt : 0 < cfg.attempts := lt_of_lt_of_le Nat.one_pos (le_max_right _ _)
  have hfence : ∀ op ∈ cfg.enforceFence entry.shardId, 0 < op.attempts := by
    rw [WriterConfig.enforceFence]
    split_ifs
    · exact forall_mem_singleton.mpr Nat.one_pos
    · exact forall_mem_nil _
  have hrecs (records) : ∀ op ∈ cfg.publishRecords entry.shardId records, 0 < op.attempts :=
    forall_mem_cons.mpr ⟨hatt, forall_mem_singleton.mpr hatt⟩
  have hent : ∀ op ∈ cfg.publishWalEntry entry, 0 < op.attempts := by
    rw [WriterConfig.publishWalEntry, if_pos h, forall_mem_append]
    refine ⟨hfence, ?_⟩
    cases cfg.appendMode with
    | protobufAppendBlob => exact hrecs _
    | jsonPerKey => exact forall_mem_singleton.mpr hatt
  rw [directPlan]
  split_ifs
  · have henc : ∀ e ∈ [entry], cfg.encodes e.command := by simpa using h
    simp only [WriterConfig.publishWalEntriesBatch, if_pos henc]
    split_ifs
    · exact forall_mem_append.mpr ⟨hfence, hrecs _⟩
    · rw [flatMap_singleton]
      exact hent
  · exact hent

/-- The store holds entries that were handed out and have an encoding; and all of these that are
not queued. -/
structure Mirrored (cfg : WriterConfig κ) (writes : List (ℕ × κ)) (w : StorageWriter κ) : Prop where
  next : w.nextWalIndex = writes.length + 1
  running : w.stopped = false
  queued : ∀ e ∈ w.pending, e ∈ entriesOf writes
  store : ∃ L F, Holds cfg.appendMode L F w.store ∧
    (∀ e, L e ∨ F e → e ∈ entriesOf writes ∧ cfg.encodes e.command) ∧
    ∀ e ∈ entriesOf writes, cfg.encodes e.command → L e ∨ e ∈ w.pending

lemma mirrored_start : Mirrored cfg [] (start : StorageWriter κ) where
  next := rfl
  running := rfl
  queued := by simp [start]
  store := ⟨_, _, holds_empty, by simp, by simp [entriesOf]⟩

/-- The store holds entries of `known` that have an encoding, and all of these that are in `landed`
and not in the queue. -/
def Stocked (cfg : WriterConfig κ) (known queue : List (WalEntry κ)) (landed : WalEntry κ → Prop)
    (store : SharedStore κ) : Prop :=
  ∃ L F, Holds cfg.appendMode L F store ∧
    (∀ e, L e ∨ F e → e ∈ known ∧ cfg.encodes e.command) ∧
    ∀ e, landed e → cfg.encodes e.command → L e ∨ e ∈ queue

lemma Stocked.perform {known queue entries : List (WalEntry κ)} {landed : WalEntry κ → Prop}
    {store : SharedStore κ} {plan : List (Operation (SharedStore κ))}
    (h : Stocked cfg known queue landed store)
    (hplan : Publishes cfg plan entries) (hents : ∀ e ∈ entries, e ∈ known) :
    ∃ store', performAll plan [] store = (.ok, store') ∧
        (∀ left, (∀ e ∈ queue, e ∈ entries ∨ e ∈ left) →
          Stocked cfg known left (Added entries landed) store') ∨
      performAll plan [] store = (.error, store') ∧ Stocked cfg known queue landed store' := by
  obtain ⟨L, F, hholds, hknown, hall⟩ := h
  obtain ⟨hcrash, hdone⟩ := hplan L F [] store (by simp [Untorn]) hholds
  obtain ⟨hrunning, -⟩ := performAll_nil plan store
  have hadded {n m : ℕ} (henc : ∀ e ∈ entries.take (max n m), cfg.encodes e.command) (e)
      (he : Added (entries.take n) L e ∨ Added (entries.take m) F e) :
      e ∈ known ∧ cfg.encodes e.command := by
    have hpart {k : ℕ} (hk : k ≤ max n m) (he : e ∈ entries.take k) :
        e ∈ known ∧ cfg.encodes e.command :=
      ⟨hents e (mem_of_mem_take he), henc e (take_subset_take_left _ hk he)⟩
    rcases he with (he | he) | he | he
    · exact hknown e (.inl he)
    · exact hpart (le_max_left n m) he
    · exact hknown e (.inr he)
    · exact hpart (le_max_right n m) he
  cases hrun : performAll plan [] store with
  | mk outcome store' =>
    rw [hrun] at hcrash hdone hrunning
    refine ⟨store', ?_⟩
    cases outcome with
    | stopped => exact absurd rfl hrunning
    | ok =>
      obtain ⟨hencoded, hfull⟩ := hdone rfl
      refine .inl ⟨rfl, fun left hleft => ⟨_, _, hfull, ?_, fun e he henc => ?_⟩⟩
      · simpa using @hadded entries.length entries.length (by simpa using hencoded)
      · rcases he with he | he
        · rcases hall e he henc with he | he
          · exact .inl (.inl he)
          · exact (hleft e he).imp .inr id
        · exact .inl (.inr he)
    | error =>
      obtain ⟨n, m, henc, hpart⟩ := hcrash
      exact .inr ⟨rfl, _, _, hpart, hadded henc, fun e he henc =>
        (hall e he henc).imp .inl id⟩

lemma Mirrored.write (h : Mirrored cfg writes w) (shardId : ℕ) (command : κ) :
    Mirrored cfg (writes ++ [(shardId, command)]) (w.write cfg shardId command []) := by
  obtain ⟨L, F, hholds, hknown, hall⟩ := h.store
  have hents : entriesOf (writes ++ [(shardId, command)]) =
      entriesOf writes ++ [w.nextEntry shardId command] := by
    rw [entriesOf_concat, nextEntry, h.next]
  have hnext : w.nextWalIndex + 1 = (writes ++ [(shardId, command)]).length + 1 := by
    rw [h.next, length_append, length_singleton]
  have hold : ∀ e ∈ entriesOf writes, e ∈ entriesOf (writes ++ [(shardId, command)]) :=
    hents ▸ fun e => mem_append_left _
  have hqueued := fun e he => hold e (h.queued e he)
  have hstocked : Stocked cfg (entriesOf (writes ++ [(shardId, command)])) w.pending
      (· ∈ entriesOf writes) w.store :=
    ⟨L, F, hholds, fun e he => (hknown e he).imp_left (hold e), hall⟩
  rw [StorageWriter.write]
  split_ifs with hdirect
  · set entry := w.nextEntry shardId command with hent
    obtain ⟨store, ⟨hrun, hall'⟩ | ⟨hrun, L', F', hholds', hknown', hall'⟩⟩ :=
      hstocked.perform (leads_directPlan cfg entry) (by simp [hents])
    all_goals rw [publish, hrun]
    · obtain ⟨L', F', hholds', hknown', hall'⟩ := hall' w.pending fun e => .inr
      refine ⟨hnext, h.running, hqueued, L', F', hholds', hknown', fun e he => hall' e ?_⟩
      rwa [hents, mem_append] at he
    · refine ⟨hnext, h.running, hqueued, L', F', hholds', hknown', fun e he henc => ?_⟩
      rw [hents, mem_append] at he
      rcases he with he | he
      · exact hall' e he henc
      · -- an entry with an encoding would have been published
        rw [mem_singleton.mp he] at henc
        have hsucc := (performAll_nil _ w.store).2 (attempts_directPlan henc)
        rw [hrun] at hsucc
        cases hsucc
  · obtain ⟨L, F, hholds, hknown, hall⟩ := hstocked
    refine ⟨hnext, h.running, fun e he => ?_, L, F, hholds, hknown, fun e he henc => ?_⟩
    · rcases mem_append.mp he with he | he
      · exact hqueued e he
      · rw [hents, mem_append]
        exact .inr he
    · rw [hents, mem_append] at he
      rcases he with he | he
      · exact (hall e he henc).imp id (mem_append_left _)
      · exact .inr (mem_append_right _ he)

lemma Mirrored.flush (h : Mirrored cfg writes w) (maxEntries : ℕ) :
    Mirrored cfg writes (w.flushPending cfg maxEntries []) := by
  have hback : w.drained maxEntries ++ w.pending.drop (max maxEntries 1) = w.pending :=
    take_append_drop _ _
  have hstocked : Stocked cfg (entriesOf writes) w.pending (· ∈ entriesOf writes) w.store := h.store
  obtain ⟨store, ⟨hrun, hall⟩ | ⟨hrun, hfailed⟩⟩ :=
    hstocked.perform (leads_publishWalEntriesBatch cfg (w.drained maxEntries))
      fun e he => h.queued e (mem_of_mem_take he)
  all_goals rw [flushPending, hrun]
  · obtain ⟨L, F, hholds, hknown, hall⟩ := hall (w.pending.drop (max maxEntries 1)) fun e he => by
      rwa [← hback, mem_append] at he
    exact ⟨h.next, h.running, fun e he => h.queued e (mem_of_mem_drop he), L, F, hholds, hknown,
      fun e he => hall e (.inl he)⟩
  · rw [hback]
    exact ⟨h.next, h.running, h.queued, hfailed⟩

lemma Mirrored.run {calls : List (WriterCall κ)} (h : Mirrored cfg writes w)
    (hfaults : ∀ call ∈ calls, call.faults = []) :
    Mirrored cfg (writes ++ written calls) (w.run cfg calls) := by
  induction calls generalizing writes w with
  | nil => simpa [written, StorageWriter.run] using h
  | cons call calls ih =>
    have hrest : ∀ call ∈ calls, call.faults = [] := fun c hc => hfaults c (mem_cons_of_mem call hc)
    have hcall := hfaults call mem_cons_self
    cases call with
    | write shardId command faults =>
      change faults = [] at hcall
      have hstep : step cfg w (.write shardId command faults) = w.write cfg shardId command [] := by
        simp [step, h.running, hcall]
      have := ih (hstep ▸ h.write shardId command) hrest
      rw [append_assoc] at this
      exact this
    | flush maxEntries faults =>
      change faults = [] at hcall
      have hstep : step cfg w (.flush maxEntries faults) = w.flushPending cfg maxEntries [] := by
        simp [step, h.running, hcall]
      exact ih (hstep ▸ h.flush maxEntries) hrest

/-- Once the queue is empty and all commands had an encoding, a shard whose entries are numbered
from 1 replays them. -/
lemma Mirrored.replayWal {shardId : ℕ} {es : List (WalEntry κ)} (h : Mirrored cfg writes w)
    (hflushed : w.pending = []) (henc : ∀ x ∈ writes, cfg.encodes x.2)
    (hes : Numbered WalEntry.walIndex 1 es)
    (hmem : ∀ e, e ∈ es ↔ e ∈ entriesOf writes ∧ e.shardId = shardId) :
    replayWal cfg.appendMode (w.store shardId) shardId 0 = .ok es := by
  obtain ⟨L, F, hholds, hknown, hall⟩ := h.store
  have hL : ∀ e ∈ es, L e := by
    intro e he
    obtain ⟨he, -⟩ := (hmem e).mp he
    have := hall e he (henc _ (mem_entriesOf he))
    simpa [hflushed] using this
  have hidxs := covers_of_numbered hes
  have hgen : (w.store shardId).Genuine fun e => e ∈ es ∧ e.shardId = shardId :=
    (hholds.genuine shardId).mono fun e he => ⟨(hmem e).mpr ⟨(hknown e he.1).1, he.2⟩, he.2⟩
  have hlanded : Covers ((w.store shardId).Landed cfg.appendMode) es.length := by
    intro i
    rw [hholds.landed, ← hidxs]
    constructor
    · rintro ⟨e, he, hshard, hi⟩
      exact ⟨e, (hmem e).mpr ⟨(hknown e (.inl he)).1, hshard⟩, hi⟩
    · rintro ⟨e, he, hi⟩
      exact ⟨e, hL e he, ((hmem e).mp he).2, hi⟩
  have hframed : cfg.appendMode = .protobufAppendBlob → ∃ n, Covers (w.store shardId).Framed n := by
    intro hmode
    refine ⟨es.length, fun i => ?_⟩
    rw [← hidxs]
    constructor
    · rintro ⟨e, he, hi⟩
      exact ⟨e, (hgen.blob e he).1, hi⟩
    · rintro ⟨e, he, hi⟩
      have hi' := (hlanded i).mpr ((hidxs i).mp ⟨e, he, hi⟩)
      rw [hmode] at hi'
      exact hgen.framed_of_indexed hi'
  obtain ⟨n, hn, hrepl⟩ := replayWal_of_covers hes hgen (hholds.plain shardId) hlanded hframed
  rw [hrepl, take_of_length_le hn]

/-- Sync writes to an append blob, each operation tried once. The command 0 has no encoding. -/
def syncConfig : WriterConfig ℕ where
  appendMode := .protobufAppendBlob
  batchContainer := false
  fitsContainer _ := true
  encodes command := command != 0
  fenced := false
  maxAttempts := 1
  mode := .sync
  groupCommit := false
  maxPending := 0

end StorageWriter

end TemporalStore.Shared
