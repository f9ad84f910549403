import TemporalStore.Lib.Keyed
import TemporalStore.Lib.Result

/-! # The shared log of a shard (`shared_store.rs`) -/

namespace TemporalStore.Shared

open Lib List Series

variable {κ : Type}

/-- An entry as the storage writer makes one: a command, without results or staged blocks. -/
structure WalEntry (κ : Type) where
  shardId : ℕ
  walIndex : ℕ
  command : κ
  deriving DecidableEq

inductive WalAppendMode where
  /-- One object an entry. -/
  | jsonPerKey
  /-- One append blob a shard, and an offset index. -/
  | protobufAppendBlob
  deriving DecidableEq

structure SharedLog (κ : Type) where
  /-- The per-key objects in key order. `none` is an object that was cut short. -/
  objects : Series ℕ (Option (WalEntry κ))
  /-- The records of the blob: a frame is one entry, a batch container all entries of a batch. -/
  blob : List (List (WalEntry κ))
  /-- A part of an append stands in the blob. -/
  blobTorn : Bool
  /-- The offset index as appended: a log index and the record of the blob it is in. -/
  offsets : List (ℕ × ℕ)
  /-- A part of an append stands in the offset index. -/
  offsetsTorn : Bool

namespace SharedLog

def empty : SharedLog κ := ⟨[], [], false, [], false⟩

end SharedLog

inductive ReplayError where
  /-- `ReplayGap` -/
  | gap (expected actual : ℕ)
  | unreadable
  deriving DecidableEq

/-- Every index from `expected` on must be there. -/
def checkNoGap {α : Type} : ℕ → List (ℕ × α) → Except ReplayError Unit
  | _, [] => .ok ()
  | expected, (walIndex, _) :: rest =>
    if walIndex ≠ expected then .error (.gap expected walIndex) else checkNoGap (expected + 1) rest

/-- The entry at an index, out of the record that the offset index names for it. -/
def readWalEntryWithOffsetMetadata (log : SharedLog κ) (shardId : ℕ) (metadata : ℕ × ℕ) :
    Except ReplayError (WalEntry κ) :=
  match log.blob[metadata.2]? with
  | none => .error .unreadable
  | some record =>
    match record.find? fun e => e.walIndex = metadata.1 with
    | none => .error .unreadable
    | some entry => if entry.shardId ≠ shardId then .error .unreadable else .ok entry

def loadWalOffsetMetadata (log : SharedLog κ) : Except ReplayError (Series ℕ ℕ) :=
  if log.offsetsTorn then .error .unreadable else .ok (inOrder log.offsets)

def parseWalEntryObject (object : ℕ × Option (WalEntry κ)) : Except ReplayError (ℕ × WalEntry κ) :=
  match object.2 with
  | some entry => .ok (object.1, entry)
  | none => .error .unreadable

/-- The union reader: all objects, and over them the whole blob. -/
def loadWalEntries (log : SharedLog κ) : Except ReplayError (Series ℕ (WalEntry κ)) := do
  let objects ← log.objects.mapM parseWalEntryObject
  if log.blobTorn then .error .unreadable
  else .ok (inOrder (objects ++ log.blob.flatten.map fun e => (e.walIndex, e)))

/-- Replay through the offset index; `none` leaves it to the union reader. -/
def replayWalFromOffsetMetadata (log : SharedLog κ) (shardId afterWalIndex : ℕ) :
    Except ReplayError (Option (List (WalEntry κ))) := do
  let metadata ← loadWalOffsetMetadata log
  if metadata = [] then .ok none
  else if log.objects.any fun o => afterWalIndex < o.1 then .ok none
  else
    let ordered := metadata.filter fun m => afterWalIndex < m.1
    checkNoGap (afterWalIndex + 1) ordered
    let entries ← ordered.mapM (readWalEntryWithOffsetMetadata log shardId)
    .ok (some entries)

/-- Replay of the union of objects and blob. -/
def replayWalEntries (log : SharedLog κ) (afterWalIndex : ℕ) :
    Except ReplayError (List (WalEntry κ)) := do
  let walEntries ← loadWalEntries log
  let ordered := walEntries.filter fun e => afterWalIndex < e.1
  checkNoGap (afterWalIndex + 1) ordered
  .ok (ordered.map Prod.snd)

/-- The entries that a replay above `afterWalIndex` delivers, in order. -/
def replayWal (mode : WalAppendMode) (log : SharedLog κ) (shardId afterWalIndex : ℕ) :
    Except ReplayError (List (WalEntry κ)) :=
  match mode with
  | .protobufAppendBlob => do
    match ← replayWalFromOffsetMetadata log shardId afterWalIndex with
    | some entries => .ok entries
    | none => replayWalEntries log afterWalIndex
  | .jsonPerKey => replayWalEntries log afterWalIndex

lemma checkNoGap_eq_ok {α : Type} {expected : ℕ} {l : List (ℕ × α)} :
    checkNoGap expected l = .ok () ↔ Numbered Prod.fst expected l := by
  induction l generalizing expected with
  | nil => exact ⟨fun _ => rfl, fun _ => rfl⟩
  | cons x l ih =>
    rw [checkNoGap]
    split_ifs with hne
    · constructor
      · intro h
        cases h
      · intro h
        exact absurd h.tail.1 hne
    · rw [ih]
      constructor
      · intro h
        exact numbered_cons (not_not.mp hne) h
      · intro h
        exact h.tail.2

section Deliver

variable {log : SharedLog κ} {shardId : ℕ} {es : List (WalEntry κ)}

lemma eq_of_walIndex_eq {start : ℕ} (hes : Numbered WalEntry.walIndex start es)
    {e e' : WalEntry κ} (he : e ∈ es) (he' : e' ∈ es) (h : e.walIndex = e'.walIndex) : e = e' :=
  inj_on_of_nodup_map hes.nodup he he' h

lemma mapM_read_eq {α : Type} {read : ℕ × α → Except ReplayError (WalEntry κ)}
    {s : List (ℕ × α)} {start : ℕ} (hs : Numbered Prod.fst start s)
    (hes : Numbered WalEntry.walIndex start es) (hlen : s.length = es.length)
    (hread : ∀ x ∈ s, ∃ e ∈ es, e.walIndex = x.1 ∧ read x = .ok e) : s.mapM read = .ok es := by
  induction s generalizing start es with
  | nil =>
    have hnil : es = [] := eq_nil_of_length_eq_zero hlen.symm
    rw [hnil]
    rfl
  | cons x s ih =>
    cases es with
    | nil => simp at hlen
    | cons e es =>
      obtain ⟨hx, hs⟩ := hs.tail
      have hnum := hes
      obtain ⟨he, hes⟩ := hes.tail
      obtain ⟨e', hmem, hidx, hok⟩ := hread x mem_cons_self
      have hsame : e' = e := by
        apply eq_of_walIndex_eq hnum hmem mem_cons_self
        rw [hidx, hx, he]
      rw [mapM_cons, hok, hsame]
      rw [ih hs hes (by simpa using hlen)]
      · rfl
      · intro y hy
        obtain ⟨e'', hmem'', hidx'', hok''⟩ := hread y (mem_cons_of_mem x hy)
        rcases mem_cons.mp hmem'' with rfl | hmem''
        · -- an index above that of the first entry
          have := (hs.key_of_mem hy).1
          omega
        · exact ⟨e'', hmem'', hidx'', hok''⟩

lemma ordered_numbered {α : Type} {s : Series ℕ α} {start : ℕ} (hs : Series.Ordered s)
    (hes : Numbered WalEntry.walIndex start es) (hknown : ∀ x ∈ s, ∃ e ∈ es, e.walIndex = x.1)
    (hall : ∀ e ∈ es, ∃ x ∈ s, x.1 = e.walIndex) :
    Numbered Prod.fst start s ∧ s.length = es.length := by
  apply hs.numbered
  intro k
  constructor
  · rintro ⟨x, hx, rfl⟩
    obtain ⟨e, he, hidx⟩ := hknown x hx
    rw [← hidx]
    exact hes.key_of_mem he
  · intro hk
    obtain ⟨e, he, rfl⟩ := hes.exists_key hk.1 hk.2
    exact hall e he

/-- The offset index leads to the entries `es` and no others. -/
lemma replayWalFromOffsetMetadata_of_offsets {start after : ℕ} (hafter : start ≤ after + 1)
    (hes : Numbered WalEntry.walIndex start es) (hobjs : log.objects = [])
    (htorn : log.offsetsTorn = false) (hne : log.offsets ≠ [])
    (hread : ∀ m ∈ log.offsets, ∃ e ∈ es, e.walIndex = m.1 ∧
      readWalEntryWithOffsetMetadata log shardId m = .ok e)
    (hall : ∀ e ∈ es, ∃ m ∈ log.offsets, m.1 = e.walIndex) :
    replayWalFromOffsetMetadata log shardId after =
      .ok (some (es.filter fun e => after < e.walIndex)) := by
  have hindexed : ∀ m ∈ inOrder log.offsets, ∃ e ∈ es, e.walIndex = m.1 ∧
      readWalEntryWithOffsetMetadata log shardId m = .ok e :=
    fun m hm => hread m (mem_of_mem_inOrder hm)
  obtain ⟨hnum, hlen⟩ := ordered_numbered (ordered_inOrder log.offsets) hes
    (fun m hm => by
      obtain ⟨e, he, hidx, -⟩ := hindexed m hm
      exact ⟨e, he, hidx⟩)
    (fun e he => by
      obtain ⟨m, hm, hidx⟩ := hall e he
      obtain ⟨m', hm', hkey⟩ := exists_mem_inOrder hm
      exact ⟨m', hm', hkey.trans hidx⟩)
  have hmeta : ¬inOrder log.offsets = [] := fun h => hne (inOrder_eq_nil.mp h)
  have hordered := hnum.drop (after + 1 - start)
  have hentries := hes.drop (after + 1 - start)
  rw [Nat.add_sub_cancel' hafter, ← hnum.filter after] at hordered
  rw [Nat.add_sub_cancel' hafter, ← hes.filter after] at hentries
  have hmapM : ((inOrder log.offsets).filter fun m => after < m.1).mapM
      (readWalEntryWithOffsetMetadata log shardId) =
      .ok (es.filter fun e => after < e.walIndex) := by
    apply mapM_read_eq hordered hentries
    · rw [hnum.filter after, hes.filter after, length_drop, length_drop, hlen]
    · intro m hm
      obtain ⟨hm, habove⟩ := mem_filter.mp hm
      obtain ⟨e, he, hidx, hok⟩ := hindexed m hm
      exact ⟨e, mem_filter.mpr ⟨he, hidx ▸ habove⟩, hidx, hok⟩
  simp only [replayWalFromOffsetMetadata, loadWalOffsetMetadata, htorn, Bool.false_eq_true,
    if_false, ok_bind, if_neg hmeta, hobjs, any_nil, checkNoGap_eq_ok.mpr hordered, hmapM]

lemma filter_above_zero {α : Type} {key : α → ℕ} {s : List α} (hs : Numbered key 1 s) :
    (s.filter fun x => 0 < key x) = s := hs.filter 0

lemma mapM_parseWalEntryObject {objects : List (ℕ × Option (WalEntry κ))}
    (h : ∀ o ∈ objects, ∃ e, o.2 = some e) :
    ∃ parsed, objects.mapM parseWalEntryObject = .ok parsed ∧
      ∀ x : ℕ × WalEntry κ, x ∈ parsed ↔ (x.1, some x.2) ∈ objects := by
  induction objects with
  | nil => exact ⟨[], rfl, by simp⟩
  | cons o objects ih =>
    obtain ⟨i, o⟩ := o
    obtain ⟨e, rfl⟩ := h _ mem_cons_self
    obtain ⟨rest, hrest, hmem⟩ := ih fun o' ho' => h o' (mem_cons_of_mem _ ho')
    refine ⟨(i, e) :: rest, ?_, ?_⟩
    · rw [mapM_cons, hrest]
      rfl
    · intro x
      rw [mem_cons, mem_cons, hmem, Prod.ext_iff, Prod.ext_iff, Option.some.injEq]

/-- A log whose objects and blob hold `es`, all of it and nothing else, replays to `es` when the
offset index has no say. -/
lemma replayWal_of_entries {mode : WalAppendMode} (hes : Numbered WalEntry.walIndex 1 es)
    (hmode : mode = .jsonPerKey ∨ log.offsetsTorn = false ∧ log.offsets = [])
    (htorn : log.blobTorn = false) (hobjs : ∀ o ∈ log.objects, ∃ e ∈ es, o = (e.walIndex, some e))
    (hblob : ∀ e ∈ log.blob.flatten, e ∈ es)
    (hall : ∀ e ∈ es, (e.walIndex, some e) ∈ log.objects ∨ e ∈ log.blob.flatten) :
    replayWal mode log shardId 0 = .ok es := by
  obtain ⟨objects, hparsed, hmem⟩ := mapM_parseWalEntryObject fun o ho => by
    obtain ⟨e, -, he⟩ := hobjs o ho
    exact ⟨e, congrArg Prod.snd he⟩
  set pairs := objects ++ log.blob.flatten.map fun e => (e.walIndex, e) with hpairs
  have hpair : ∀ x : ℕ × WalEntry κ, x ∈ pairs ↔ x.2 ∈ es ∧ x.1 = x.2.walIndex := by
    intro x
    rw [mem_append, hmem, mem_map]
    constructor
    · rintro (hx | ⟨e, he, rfl⟩)
      · obtain ⟨e, he, heq⟩ := hobjs _ hx
        rw [Prod.mk.injEq, Option.some.injEq] at heq
        rw [heq.1, heq.2]
        exact ⟨he, rfl⟩
      · exact ⟨hblob e he, rfl⟩
    · rintro ⟨he, hidx⟩
      rcases hall x.2 he with ho | hb
      · exact .inl (hidx ▸ ho)
      · exact .inr ⟨x.2, hb, Prod.ext hidx.symm rfl⟩
  have hes' : Numbered Prod.fst 1 (es.map fun e => (e.walIndex, e)) := by
    rw [Numbered, map_map, length_map]
    exact hes
  have horder : inOrder pairs = es.map fun e => (e.walIndex, e) := by
    refine (ordered_inOrder pairs).eq_of_mem_iff (ordered_of_numbered hes') ?_
    intro x
    rw [mem_inOrder, hpair, mem_map]
    · constructor
      · rintro ⟨he, hidx⟩
        exact ⟨x.2, he, Prod.ext hidx.symm rfl⟩
      · rintro ⟨e, he, rfl⟩
        exact ⟨he, rfl⟩
    · intro a ha b hb hkey
      obtain ⟨ha, hai⟩ := (hpair a).mp ha
      obtain ⟨hb, hbi⟩ := (hpair b).mp hb
      have : a.2 = b.2 := eq_of_walIndex_eq hes ha hb (by rw [← hai, ← hbi, hkey])
      exact Prod.ext hkey this
  have hload : loadWalEntries log = .ok (es.map fun e => (e.walIndex, e)) := by
    rw [loadWalEntries, hparsed, ok_bind, htorn, if_neg (by simp), ← horder]
  have hgap : checkNoGap (0 + 1) (es.map fun e => (e.walIndex, e)) = .ok () :=
    checkNoGap_eq_ok.mpr hes'
  have hlast : (es.map fun e => (e.walIndex, e)).map Prod.snd = es := by
    rw [map_map]
    exact map_id es
  have hunion : replayWalEntries log 0 = .ok es := by
    simp only [replayWalEntries, ok_bind, hload, filter_above_zero hes', hgap, hlast]
  rcases hmode with rfl | ⟨hoffs, hempty⟩
  · exact hunion
  · have hindexed : replayWalFromOffsetMetadata log shardId 0 = .ok none := by
      simp [replayWalFromOffsetMetadata, loadWalOffsetMetadata, hoffs, hempty, inOrder]
    cases mode with
    | protobufAppendBlob => simp only [replayWal, hindexed, ok_bind, hunion]
    | jsonPerKey => exact hunion

end Deliver

end TemporalStore.Shared
