import TemporalStore.Shard.Commands

namespace TemporalStore.Shard

open Lib ShardState

/-- Each counter is as it was or has gone, and the ladder over it with it. -/
structure Frame (s s' : ShardState) : Prop where
  ledger : s'.controlStateUuid = s.controlStateUuid
  maxSize : s'.controlStateMaxSize = s.controlStateMaxSize
  counters : ∀ key, (s'.counter key = s.counter key ∧ s'.rollups key = s.rollups key) ∨
    (s'.counter key = [] ∧ s'.rollups key = none)

lemma Frame.refl (s : ShardState) : Frame s s := ⟨rfl, rfl, fun _ => .inl ⟨rfl, rfl⟩⟩

lemma Frame.trans {s s' s'' : ShardState} (h : Frame s s') (h' : Frame s' s'') : Frame s s'' where
  ledger := h'.ledger.trans h.ledger
  maxSize := h'.maxSize.trans h.maxSize
  counters key := by
    rcases h'.counters key with ⟨hc', hr'⟩ | hgone
    · rw [hc', hr']
      exact h.counters key
    · exact .inr hgone

/-- Counters, ladders and the ledger are as they were. -/
structure Same (s s' : ShardState) : Prop where
  ledger : s'.controlStateUuid = s.controlStateUuid
  maxSize : s'.controlStateMaxSize = s.controlStateMaxSize
  counter : s'.counter = s.counter
  rollups : s'.rollups = s.rollups

lemma Same.refl (s : ShardState) : Same s s := ⟨rfl, rfl, rfl, rfl⟩

lemma Same.trans {s s' s'' : ShardState} (h : Same s s') (h' : Same s' s'') : Same s s'' :=
  ⟨h'.ledger.trans h.ledger, h'.maxSize.trans h.maxSize, h'.counter.trans h.counter,
    h'.rollups.trans h.rollups⟩

lemma Same.frame {s s' : ShardState} (h : Same s s') : Frame s s' :=
  ⟨h.ledger, h.maxSize, fun key => .inl ⟨congrFun h.counter key, congrFun h.rollups key⟩⟩

/-- A relation between what was and what is left, which every removal keeps. -/
structure Erodes (R : ShardState → ShardState → Prop) : Prop where
  refl : ∀ s, R s s
  trans : ∀ {s s' s''}, R s s' → R s' s'' → R s s''
  clearExpiry : ∀ s key, R s (s.clearExpiry key).1
  deleteRecordExact : ∀ s key, R s (s.deleteRecordExact key).1

section Erodes

variable {R : ShardState → ShardState → Prop} (h : Erodes R)
include h

lemma Erodes.deleteEach (condition : ShardState → Key → Bool) (keys : List Key) (s : ShardState) :
    R s (s.deleteEach condition keys).1 := by
  induction keys generalizing s with
  | nil => exact h.refl s
  | cons key keys ih =>
    unfold ShardState.deleteEach
    split
    · exact h.trans (h.deleteRecordExact s key) (ih _)
    · exact ih s

lemma Erodes.sweepHot (now : ℕ) (due : List (Key × ℕ)) (s : ShardState) :
    R s (s.sweepHot now due) := by
  induction due generalizing s with
  | nil => exact h.refl s
  | cons x due ih =>
    refine h.trans ?_ (ih _)
    split
    · exact h.deleteEach ..
    · exact h.refl s

lemma Erodes.sweepCold (now : ℕ) (load : Bool) (due : List (Key × ℕ)) (s : ShardState) :
    R s (s.sweepCold now load due) := by
  induction due generalizing s with
  | nil => exact h.refl s
  | cons x due ih =>
    refine h.trans ?_ (ih _)
    dsimp only
    split
    · split
      · exact h.deleteEach ..
      · exact h.trans (h.deleteEach ..) (h.clearExpiry _ x.1)
    · exact h.refl s

lemma Erodes.sweep (s : ShardState) (now : ℕ) (request : ShardState.ShardExpirySweepRequest) :
    R s (s.sweepExpiredRecordsWithRequest now request) :=
  h.trans (h.sweepHot ..) (h.sweepCold ..)

end Erodes

namespace ShardState

variable (s : ShardState) (now : ℕ) (key : Key)

lemma records_modifyRecord (f : Record → Record) (k : Key) :
    (s.modifyRecord key f).records k = if k = key then f (s.records key) else s.records k := by
  simp only [modifyRecord, setRecord, Function.update_apply]

lemma counter_modifyRecord (f : Record → Record) (k : Key) : (s.modifyRecord key f).counter k =
      if k = key then (f (s.records key)).controlState.getD [] else s.counter k := by
  unfold counter
  rw [records_modifyRecord]
  split <;> rfl

lemma same_modifyRecord {f : Record → Record} (hf : ∀ r, (f r).controlState = r.controlState) :
    Same s (s.modifyRecord key f) where
  ledger := rfl
  maxSize := rfl
  rollups := rfl
  counter := by
    funext k
    rw [counter_modifyRecord, hf]
    split
    case isTrue h => rw [h]; rfl
    case isFalse => rfl

lemma frame_modifyRecord {f : Record → Record} (hf : ∀ r, (f r).controlState = r.controlState) :
    Frame s (s.modifyRecord key f) :=
  (s.same_modifyRecord key hf).frame

lemma same_setExpiry (expiresAt : ℕ) : Same s (s.setExpiry key expiresAt) := ⟨rfl, rfl, rfl, rfl⟩

lemma same_clearExpiry : Same s (s.clearExpiry key).1 := by
  unfold clearExpiry
  split
  · exact ⟨rfl, rfl, rfl, rfl⟩
  · exact Same.refl s

lemma same_optionalExpiry (ttlMs : Option ℕ) : Same s (s.optionalExpiry now key ttlMs).1 := by
  cases ttlMs with
  | none => exact Same.refl s
  | some ttlMs => exact s.same_setExpiry key _

lemma frame_deleteRecordExact : Frame s (s.deleteRecordExact key).1 where
  ledger := (s.same_clearExpiry key).ledger
  maxSize := (s.same_clearExpiry key).maxSize
  counters k := by
    have hrecs : (s.clearExpiry key).1.records = s.records := by
      unfold clearExpiry
      split <;> rfl
    by_cases hk : k = key
    · subst hk
      have hctr : (s.deleteRecordExact k).1.counter k = [] := by
        simp [counter, deleteRecordExact, Record.empty]
      cases hseries : (s.records k).controlState with
      | some series =>
        refine .inr ⟨hctr, ?_⟩
        simp [deleteRecordExact, hseries]
      | none =>
        refine .inl ⟨?_, ?_⟩
        · rw [hctr]
          simp [counter, hseries]
        · simp [deleteRecordExact, hseries]
    · refine .inl ⟨?_, ?_⟩
      · simp [counter, deleteRecordExact, Function.update_of_ne hk, hrecs]
      · simp only [deleteRecordExact]
        split
        · exact Function.update_of_ne hk _ _
        · rfl

lemma erodes_frame : Erodes Frame :=
  ⟨Frame.refl, Frame.trans, fun s key => (s.same_clearExpiry key).frame, frame_deleteRecordExact⟩

lemma deleteEach_eq_self {condition : ShardState → Key → Bool} {keys : List Key} {s : ShardState}
    (h : ∀ key ∈ keys, condition s key = false) : s.deleteEach condition keys = (s, false) := by
  induction keys with
  | nil => rfl
  | cons key keys ih =>
    unfold deleteEach
    rw [h key List.mem_cons_self]
    exact ih fun k hk => h k (List.mem_cons_of_mem key hk)

lemma removeIfExpired_eq_self {s : ShardState} {now : ℕ} {key : Key}
    (h : ∀ k ∈ associatedRecordKeys key, s.expired now k = false) :
    s.removeIfExpired now key = (s, false) :=
  deleteEach_eq_self h

lemma frame_deleteRecord : Frame s (s.deleteRecord key).1 :=
  erodes_frame.deleteEach _ _ s

lemma frame_removeIfExpired : Frame s (s.removeIfExpired now key).1 :=
  erodes_frame.deleteEach _ _ s

lemma frame_expireExisting (expiresAt : ℕ) (keys : List Key) (s : ShardState) :
    Frame s (s.expireExisting expiresAt keys) := by
  induction keys generalizing s with
  | nil => exact Frame.refl s
  | cons key keys ih =>
    unfold expireExisting
    split
    · exact (s.same_setExpiry key expiresAt).frame.trans (ih _)
    · exact ih s

lemma frame_clearEach (keys : List Key) (s : ShardState) : Frame s (s.clearEach keys).1 := by
  induction keys generalizing s with
  | nil => exact Frame.refl s
  | cons key keys ih =>
    exact (s.same_clearExpiry key).frame.trans (ih _)

lemma frame_ttlMs : Frame s (s.ttlMs now key).1 := by
  have h := s.frame_removeIfExpired now key
  unfold ttlMs
  dsimp only
  split
  · exact h
  · split <;> exact h

lemma frame_read (absent : CommandResponse) (answer : ShardState → CommandResponse) :
    Frame s (s.read now key absent answer).shard := by
  have h := s.frame_removeIfExpired now key
  unfold read
  dsimp only
  split <;> exact h

lemma frame_foldl_modifyRecord {α : Type} (f : α → Record → Record)
    (hf : ∀ a r, (f a r).controlState = r.controlState) (l : List α) (s : ShardState) :
    Frame s (l.foldl (fun s a => s.modifyRecord key (f a)) s) := by
  induction l generalizing s with
  | nil => exact Frame.refl s
  | cons a l ih => exact (s.frame_modifyRecord key (hf a)).trans (ih _)

lemma frame_update (f : Record → Record) (hf : ∀ r, (f r).controlState = r.controlState) :
    Frame s ((s.removeIfExpired now key).1.modifyRecord key f) :=
  (s.frame_removeIfExpired now key).trans (frame_modifyRecord _ key hf)

end ShardState

def NoDeadlines (s : ShardState) : Prop := ∀ key, s.expiresAt key = none

lemma NoDeadlines.removeIfExpired {s : ShardState} (h : NoDeadlines s) (now : ℕ) (key : Key) :
    s.removeIfExpired now key = (s, false) := by
  apply removeIfExpired_eq_self
  intro k _
  unfold expired
  rw [h k]
  rfl

/-- The commands that write counters, and the queries, which may rebuild a ladder. -/
def touchesCounters : Command → Bool
  | .controlStateIncrement _ _ _ | .controlStateIncrementWithOptions _ _ _ _ _
  | .controlStateCount _ _ _ | .controlStateQuery _ _ _ _ | .controlStateSet _ _ _ _
  | .controlStateSetAndGet _ _ _ _ _ _ _ | .controlStateSetAndGetWithOptions _ _ _ _ _ _ _ _ _ _
  | .controlStateFamilyQuery _ _ _ _ _ => true
  | _ => false

namespace ShardState

variable (s : ShardState) (now : ℕ) (key : Key)

lemma frame_commonExpire (ttlMs : ℕ) : Frame s (s.commonExpire now key ttlMs).shard := by
  unfold commonExpire
  split
  · exact Frame.refl s
  · exact (s.frame_removeIfExpired now key).trans (frame_expireExisting _ _ _)

lemma frame_commonPersist : Frame s (s.commonPersist now key).shard := by
  have h := s.frame_removeIfExpired now key
  unfold commonPersist
  dsimp only
  split
  · exact h
  · exact h.trans (frame_clearEach _ _)

lemma frame_stringSetConditional (value : Bytes) (ttlMs : Option ℕ)
    (condition : StringSetCondition) (returnOld keepTtl : Bool) :
    Frame s (s.stringSetConditional now key value ttlMs condition returnOld keepTtl).shard := by
  have hput : Frame s ((s.removeIfExpired now key).1.putString key value) :=
    s.frame_update now key _ (fun _ => rfl)
  unfold stringSetConditional
  dsimp only
  split
  · cases ttlMs with
    | some ttlMs => exact hput.trans (same_setExpiry _ key _).frame
    | none =>
      dsimp only
      split
      · exact hput
      · exact hput.trans (same_clearExpiry _ key).frame
  · exact s.frame_removeIfExpired now key

lemma frame_zsetAdd (member : Bytes) (score : Float) :
    Frame s (s.zsetAdd now key member score).shard := by
  unfold zsetAdd zsetPut
  dsimp only
  split
  · exact s.frame_removeIfExpired now key
  · dsimp only
    exact s.frame_update now key _ fun _ => rfl

lemma frame_zsetRemove (member : Bytes) : Frame s (s.zsetRemove now key member).shard := by
  unfold zsetRemove
  dsimp only
  split
  · dsimp only
    exact s.frame_update now key _ fun _ => rfl
  · exact s.frame_removeIfExpired now key

lemma frame_zsetPop (min : Bool) (count : ℕ) : Frame s (s.zsetPop now key min count).shard := by
  unfold zsetPop
  dsimp only
  split
  · exact s.frame_removeIfExpired now key
  · refine (s.frame_removeIfExpired now key).trans ?_
    refine frame_foldl_modifyRecord key _ ?_ _ _
    exact fun _ _ => rfl

lemma frame_listPop (left : Bool) : Frame s (s.listPop now key left).shard := by
  unfold listPop
  dsimp only
  split
  · exact s.frame_removeIfExpired now key
  · split
    · exact s.frame_removeIfExpired now key
    · dsimp only
      exact s.frame_update now key _ fun _ => rfl

lemma frame_controlStateSelectionSet (value : Bytes) (occurTimeMs ttlMs : ℕ)
    (selectionType : ControlStateSelectionType) : Frame s
      (s.controlStateSelectionSet now key value occurTimeMs ttlMs selectionType).shard := by
  refine Frame.trans ?_ (same_optionalExpiry _ now key _).frame
  generalize (if occurTimeMs = 0 then now else occurTimeMs) = occurTimeMs
  split
  · exact s.frame_update now key _ fun _ => rfl
  · exact s.frame_removeIfExpired now key

end ShardState

lemma executeOnShard_frame (config : Config) (now : ℕ) (s : ShardState) {command : Command}
    (h : touchesCounters command = false) :
    Frame { s with controlStateMaxSize := config.controlStateMaxSize }
      (executeOnShard config now s command).shard := by
  unfold executeOnShard
  generalize { s with controlStateMaxSize := config.controlStateMaxSize } = s
  cases command with
  | commonDelete key => exact s.frame_deleteRecord key
  | commonExpire key ttlMs => exact s.frame_commonExpire now key ttlMs
  | commonPersist key => exact s.frame_commonPersist now key
  | commonTtl key => exact (s.frame_removeIfExpired now key).trans (frame_ttlMs _ now key)
  | commonExists key | stringGet key | hashGet key _ | hashLen key | setMembers key
  | zsetScore key _ | zsetCard key | listLen key | listRange key _ _ | seenCard key
  | controlStateSelectionQuery key => exact s.frame_read now key _ _
  | stringSet key _ | stringDelete key | hashSet key _ _ | hashDelete key _ | setAdd key _
  | setRemove key _ | zsetIncrBy key _ _ | listPush key _ _ | seenCheck key _ _ =>
    dsimp only [stringSet, putString, stringDelete, hashSet, hashDelete, setAdd, setRemove,
      zsetIncrBy, zsetPut, listPush, seenCheck]
    exact s.frame_update now key _ fun _ => rfl
  | stringSetEx key value ttlMs =>
    refine Frame.trans ?_ (same_setExpiry _ key _).frame
    exact s.frame_update now key _ fun _ => rfl
  | stringSetConditional => exact s.frame_stringSetConditional now ..
  | hashMultiSet key entries =>
    refine (s.frame_removeIfExpired now key).trans ?_
    refine frame_foldl_modifyRecord key _ ?_ _ _
    exact fun _ _ => rfl
  | zsetAdd key member score => exact s.frame_zsetAdd now key member score
  | zsetRemove key member => exact s.frame_zsetRemove now key member
  | zsetPop key min count => exact s.frame_zsetPop now key min count
  | listPop key left => exact s.frame_listPop now key left
  | controlStateSelectionSet => exact s.frame_controlStateSelectionSet now ..
  | _ => cases h

end TemporalStore.Shard
