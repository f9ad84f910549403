import TemporalStore.Shared.Entries

namespace TemporalStore.Shared

open Lib List SharedLog Function

variable {κ : Type}

/-- `L` and the entries of a list. -/
def Added (entries : List (WalEntry κ)) (L : WalEntry κ → Prop) (e : WalEntry κ) : Prop :=
  L e ∨ e ∈ entries

/-- An entry of `L` with index `i` belongs to the shard. -/
def Carries (L : WalEntry κ → Prop) (shardId i : ℕ) : Prop :=
  ∃ e, L e ∧ e.shardId = shardId ∧ e.walIndex = i

/-- The entries that replay finds are those of `L`, the entries of the blobs those of `F`. -/
structure Holds (mode : WalAppendMode) (L F : WalEntry κ → Prop) (store : SharedStore κ) :
    Prop where
  genuine : ∀ s, (store s).Genuine fun e => (L e ∨ F e) ∧ e.shardId = s
  plain : ∀ s, (store s).Plain mode
  landed : ∀ s i, (store s).Landed mode i ↔ Carries L s i
  framed : mode = .protobufAppendBlob → ∀ s i, (store s).Framed i ↔ Carries F s i

variable {cfg : WriterConfig κ} {mode : WalAppendMode} {L L' F F' : WalEntry κ → Prop} {shardId : ℕ}
  {entries : List (WalEntry κ)} {store : SharedStore κ}

lemma Carries.congr (h : ∀ e, L e ↔ L' e) (s i : ℕ) : Carries L s i ↔ Carries L' s i := by
  simp only [Carries, h]

lemma carries_added (s i : ℕ) :
    Carries (Added entries L) s i ↔ Carries L s i ∨ Carries (· ∈ entries) s i := by
  simp only [Carries, Added, or_and_right, exists_or]

lemma carries_iff_of_shard (h : ∀ e ∈ entries, e.shardId = shardId) (s i : ℕ) :
    Carries (· ∈ entries) s i ↔ s = shardId ∧ ∃ e ∈ entries, e.walIndex = i := by
  constructor
  · rintro ⟨e, he, hs, hi⟩
    exact ⟨hs.symm.trans (h e he), e, he, hi⟩
  · rintro ⟨rfl, e, he, hi⟩
    exact ⟨e, he, h e he, hi⟩

lemma Holds.congr (h : Holds mode L F store) (hL : ∀ e, L e ↔ L' e) (hF : ∀ e, F e ↔ F' e) :
    Holds mode L' F' store where
  genuine s := (h.genuine s).mono fun e he => ⟨he.1.imp (hL e).mp (hF e).mp, he.2⟩
  plain := h.plain
  landed s i := (h.landed s i).trans (Carries.congr hL s i)
  framed hmode s i := (h.framed hmode s i).trans (Carries.congr hF s i)

lemma holds_empty : Holds mode (fun _ => False) (fun _ => False)
    (fun _ => empty : SharedStore κ) where
  genuine _ := genuine_empty
  plain _ := by cases mode <;> rfl
  landed _ _ := by cases mode <;> simp [SharedLog.Landed, SharedLog.Indexed, SharedLog.Stored,
    empty, Carries]
  framed _ _ _ := by simp [SharedLog.Framed, empty, Carries]

lemma forall_update {p : ℕ → SharedLog κ → Prop} {log : SharedLog κ} (hlog : p shardId log)
    (hrest : ∀ s, s ≠ shardId → p s (store s)) (s : ℕ) : p s (update store shardId log s) := by
  by_cases hs : s = shardId
  · rw [hs, update_self]
    exact hlog
  · rw [update_of_ne hs]
    exact hrest s hs

/-- A change of one shard's log that adds `landed` to what replay finds there and `framed` to its
blob, both of that shard. -/
lemma Holds.update (h : Holds mode L F store) {log : SharedLog κ}
    {landed framed : List (WalEntry κ)}
    (hlanded : ∀ e ∈ landed, e.shardId = shardId) (hframed : ∀ e ∈ framed, e.shardId = shardId)
    (hgen : log.Genuine fun e => (Added landed L e ∨ Added framed F e) ∧ e.shardId = shardId)
    (hplain : log.Plain mode)
    (hlog : ∀ i, log.Landed mode i ↔ (store shardId).Landed mode i ∨ ∃ e ∈ landed, e.walIndex = i)
    (hblob : mode = .protobufAppendBlob → ∀ i, log.Framed i ↔
      (store shardId).Framed i ∨ ∃ e ∈ framed, e.walIndex = i) :
    Holds mode (Added landed L) (Added framed F) (update store shardId log) where
  genuine := forall_update (p := fun s log =>
      log.Genuine fun e => (Added landed L e ∨ Added framed F e) ∧ e.shardId = s) hgen
    fun s _ => (h.genuine s).mono fun e he => ⟨he.1.imp .inl .inl, he.2⟩
  plain := forall_update (p := fun _ log => log.Plain mode) hplain fun s _ => h.plain s
  landed := by
    refine forall_update (p := fun s log => ∀ i, log.Landed mode i ↔
      Carries (Added landed L) s i) (fun i => ?_) fun s hs i => ?_
    · rw [hlog, h.landed, carries_added, carries_iff_of_shard hlanded]
      simp
    · rw [h.landed, carries_added, carries_iff_of_shard hlanded]
      simp [hs]
  framed hmode := by
    refine forall_update (p := fun s log => ∀ i, log.Framed i ↔
      Carries (Added framed F) s i) (fun i => ?_) fun s hs i => ?_
    · rw [hblob hmode, h.framed hmode, carries_added, carries_iff_of_shard hframed]
      simp
    · rw [h.framed hmode, carries_added, carries_iff_of_shard hframed]
      simp [hs]

lemma Holds.putObject (h : Holds .jsonPerKey L F store) (e : WalEntry κ) :
    Holds .jsonPerKey (Added [e] L) (Added [e] F)
      (Function.update store e.shardId ((store e.shardId).putObject e)) := by
  have hshard : ∀ x ∈ [e], x.shardId = e.shardId := by simp
  refine h.update hshard hshard (SharedLog.Genuine.putObject ?_ ⟨.inl (.inr (by simp)), rfl⟩)
    (h.plain e.shardId) (fun i => ?_) nofun
  · exact (h.genuine e.shardId).mono fun x hx => ⟨hx.1.imp .inl .inl, hx.2⟩
  · refine (stored_putObject _ e i).trans (or_congr Iff.rfl ?_)
    simp [eq_comm]

section

variable (h : Holds .protobufAppendBlob L F store) {records : List (List (WalEntry κ))}
    (hrecs : ∀ e ∈ records.flatten, e.shardId = shardId)
include h hrecs

lemma Holds.appendBlob : Holds .protobufAppendBlob L (Added records.flatten F)
      (Function.update store shardId ((store shardId).appendBlob records)) := by
  have hnone : ∀ e ∈ ([] : List (WalEntry κ)), e.shardId = shardId := by simp
  refine Holds.congr (h.update hnone hrecs (SharedLog.Genuine.appendBlob ?_ fun e he =>
    ⟨.inr (.inr he), hrecs e he⟩) (h.plain shardId) (fun i => ?_) fun _ i => ?_)
    (fun e => ?_) fun _ => Iff.rfl
  · exact (h.genuine shardId).mono fun e he => ⟨he.1.imp .inl .inl, he.2⟩
  · simp only [not_mem_nil, false_and, exists_false, or_false]
    exact Iff.rfl
  · simp only [Framed, SharedLog.appendBlob, flatten_append, mem_append, or_and_right, exists_or]
  · simp [Added]

lemma Holds.appendOffsets (hends : (store shardId).EndsIn records) :
    Holds .protobufAppendBlob (Added records.flatten L) F
      (Function.update store shardId ((store shardId).appendOffsets records)) := by
  have hnone : ∀ e ∈ ([] : List (WalEntry κ)), e.shardId = shardId := by simp
  refine Holds.congr (h.update hrecs hnone (SharedLog.Genuine.appendOffsets ?_ hends)
    (h.plain shardId) (fun i => ?_) fun _ i => ?_) (fun _ => Iff.rfl) fun e => ?_
  · exact (h.genuine shardId).mono fun e he => ⟨he.1.imp .inl .inl, he.2⟩
  · exact indexed_appendOffsets _ _ i
  · simp only [not_mem_nil, false_and, exists_false, or_false]
    exact Iff.rfl
  · simp [Added]

end

variable (cfg L F entries store)

/-- First parts of `entries` have been added to what the store holds, and only entries that have an
encoding. -/
def PartlyAdded : Prop :=
  ∃ n m, (∀ e ∈ entries.take (max n m), cfg.encodes e.command) ∧
    Holds cfg.appendMode (Added (entries.take n) L) (Added (entries.take m) F) store

def FullyAdded : Prop :=
  (∀ e ∈ entries, cfg.encodes e.command) ∧
    Holds cfg.appendMode (Added entries L) (Added entries F) store

/-- A plan adds the entries to whatever the store holds. -/
def Publishes (plan : List (Operation (SharedStore κ))) (entries : List (WalEntry κ)) : Prop :=
  ∀ L F, Leads (Holds cfg.appendMode L F) plan (PartlyAdded cfg L F entries)
    (FullyAdded cfg L F entries)

variable {cfg L F entries store}

lemma added_idem (e : WalEntry κ) : Added entries (Added entries L) e ↔ Added entries L e := by
  simp only [Added, or_assoc, or_self]

lemma added_nil (e : WalEntry κ) : Added [] L e ↔ L e := by simp [Added]

lemma added_append (front back : List (WalEntry κ)) (e : WalEntry κ) :
    Added back (Added front L) e ↔ Added (front ++ back) L e := by
  simp only [Added, or_assoc, mem_append]

lemma PartlyAdded.none (h : Holds cfg.appendMode L F store) : PartlyAdded cfg L F entries store :=
  ⟨0, 0, by simp, h.congr (fun e => (added_nil e).symm) fun e => (added_nil e).symm⟩

lemma FullyAdded.partly (h : FullyAdded cfg L F entries store) :
    PartlyAdded cfg L F entries store := by
  refine ⟨entries.length, entries.length, ?_, ?_⟩
  · rw [max_self, take_length]
    exact h.1
  · rw [take_length]
    exact h.2

lemma leads_enforceFence {P I : SharedStore κ → Prop} (shardId : ℕ) (hI : ∀ s, P s → I s) :
    Leads P (cfg.enforceFence shardId) I P := by
  have hid (s : SharedStore κ) : (onShard shardId 1 id id).full s = s := by
    simp [onShard]
  rw [WriterConfig.enforceFence]
  split_ifs
  · exact leads_op P (fun s hs => hs) (fun s hs => (hid s).symm ▸ hs) hI
      fun s hs => (hid s).symm ▸ hs
  · exact leads_nil hI

/-- Both appends of a record publication: the blob takes the records, then the offset index. -/
lemma leads_publishRecords (records : List (List (WalEntry κ)))
    (hmode : cfg.appendMode = .protobufAppendBlob)
    (hrecs : ∀ e ∈ records.flatten, e.shardId = shardId)
    (henc : ∀ e ∈ records.flatten, cfg.encodes e.command) :
    Publishes cfg (cfg.publishRecords shardId records) records.flatten := by
  intro L F
  have hpart {n m : ℕ} {s : SharedStore κ} (h : Holds cfg.appendMode
      (Added (records.flatten.take n) L) (Added (records.flatten.take m) F) s) :
      PartlyAdded cfg L F records.flatten s :=
    ⟨n, m, fun e he => henc e (mem_of_mem_take he), h⟩
  -- once the blob has the records
  have hframed {s : SharedStore κ} (h : Holds cfg.appendMode L (Added records.flatten F) s) :
      PartlyAdded cfg L F records.flatten s := by
    apply hpart (n := 0) (m := records.flatten.length)
    rw [take_length]
    exact h.congr (fun e => (added_nil e).symm) fun _ => Iff.rfl
  let Framed (s : SharedStore κ) : Prop :=
    Holds cfg.appendMode L (Added records.flatten F) s ∧ (s shardId).EndsIn records
  let Indexed (s : SharedStore κ) : Prop :=
    FullyAdded cfg L F records.flatten s ∧ (s shardId).EndsIn records
  have hblob : ∀ s, (Holds cfg.appendMode L F s ∨ Framed s) →
      Framed ((onShard shardId cfg.attempts (·.appendBlob records) tearBlob).full s) := by
    intro s hs
    refine ⟨?_, (s shardId).blob, by simp [onShard, appendBlob]⟩
    rw [hmode] at hs ⊢
    rcases hs with hs | hs
    · exact hs.appendBlob hrecs
    · exact (hmode ▸ hs.1).appendBlob hrecs |>.congr (fun _ => Iff.rfl) added_idem
  have hoffs : ∀ s, (Framed s ∨ Indexed s) → Indexed ((onShard shardId cfg.attempts
      (·.appendOffsets records) tearOffsets).full s) := by
    intro s hs
    have hends : (s shardId).EndsIn records := hs.elim (·.2) (·.2)
    refine ⟨⟨henc, ?_⟩, ?_⟩
    · rw [hmode]
      rcases hs with hs | hs
      · exact (hmode ▸ hs.1).appendOffsets hrecs hends
      · exact ((hmode ▸ hs.1.2).appendOffsets hrecs hends).congr added_idem fun _ => Iff.rfl
    · obtain ⟨before, hbef⟩ := hends
      exact ⟨before, by simpa [onShard, appendOffsets] using hbef⟩
  have hfirst : Leads (Holds cfg.appendMode L F)
      [onShard shardId cfg.attempts (·.appendBlob records) tearBlob]
      (PartlyAdded cfg L F records.flatten) Framed :=
    leads_op (fun s => Holds cfg.appendMode L F s ∨ Framed s) (fun s hs => .inl hs)
      (fun s hs => .inr (hblob s hs)) (fun s hs => hs.elim .none fun h => hframed h.1) hblob
  have hsecond : Leads Framed [onShard shardId cfg.attempts (·.appendOffsets records) tearOffsets]
      (PartlyAdded cfg L F records.flatten) (FullyAdded cfg L F records.flatten) :=
    leads_op (fun s => Framed s ∨ Indexed s) (fun s hs => .inl hs)
      (fun s hs => .inr (hoffs s hs))
      (fun s hs => hs.elim (fun h => hframed h.1) fun h => h.1.partly)
      fun s hs => (hoffs s hs).1
  exact hfirst.append hsecond

lemma leads_publishObject (hmode : cfg.appendMode = .jsonPerKey) {e : WalEntry κ}
    (henc : cfg.encodes e.command) : Publishes cfg (cfg.publishObject e) [e] := by
  intro L F
  have hput : ∀ s, (Holds cfg.appendMode L F s ∨ FullyAdded cfg L F [e] s) → FullyAdded cfg L F [e]
        ((onShard e.shardId cfg.attempts (·.putObject e) (·.tearObject e)).full s) := by
    intro s hs
    refine ⟨by simpa using henc, ?_⟩
    rw [hmode]
    rcases hs with hs | hs
    · exact (hmode ▸ hs).putObject e
    · exact ((hmode ▸ hs.2).putObject e).congr added_idem added_idem
  exact leads_op (fun s => Holds cfg.appendMode L F s ∨ FullyAdded cfg L F [e] s)
    (fun s hs => .inl hs) (fun s hs => .inr (hput s hs))
    (fun s hs => hs.elim .none FullyAdded.partly) hput

lemma leads_refuse {P I Q : SharedStore κ → Prop} (shardId : ℕ) (hI : ∀ s, P s → I s) :
    Leads P [WriterConfig.refuse shardId] I Q := leads_refusal rfl hI

lemma leads_publishWalEntry (cfg : WriterConfig κ) (e : WalEntry κ) :
    Publishes cfg (cfg.publishWalEntry e) [e] := by
  intro L F
  refine (leads_enforceFence e.shardId fun s hs => .none hs).append ?_
  split_ifs with henc
  · split
    · next hmode =>
      have hself : ∀ x ∈ [[e]].flatten, x = e := by simp
      exact leads_publishRecords [[e]] hmode (fun x hx => congrArg _ (hself x hx))
        (fun x hx => hself x hx ▸ henc) L F
    · next hmode => exact leads_publishObject hmode henc L F
  · exact leads_refuse e.shardId fun s hs => .none hs

lemma leads_flatMap_publishWalEntry (entries : List (WalEntry κ)) :
    Publishes cfg (entries.flatMap cfg.publishWalEntry) entries := by
  induction entries with
  | nil =>
    intro L F
    refine (leads_nil fun s hs => .none hs).mono (fun s hs => hs) (fun s hs => hs) fun s hs => ?_
    exact ⟨by simp, hs.congr (fun e => (added_nil e).symm) fun e => (added_nil e).symm⟩
  | cons e entries ih =>
    intro L F
    have hfirst : Leads (Holds cfg.appendMode L F) (cfg.publishWalEntry e)
        (PartlyAdded cfg L F (e :: entries)) (FullyAdded cfg L F [e]) := by
      refine (leads_publishWalEntry cfg e L F).mono (fun s hs => hs) (fun s hs => ?_) fun s hs => hs
      obtain ⟨n, m, henc, hs⟩ := hs
      have htake (k : ℕ) : [e].take k = (e :: entries).take (min k 1) := by
        cases k <;> simp
      rw [htake, htake] at hs
      refine ⟨min n 1, min m 1, ?_, hs⟩
      rw [← Nat.min_max_distrib_right, ← htake]
      exact henc
    refine hfirst.append ?_
    intro faults s htorn hs
    obtain ⟨henc, hs⟩ := hs
    have hcons (k : ℕ) (M : WalEntry κ → Prop) (x : WalEntry κ) :
        Added (entries.take k) (Added [e] M) x ↔ Added ((e :: entries).take (k + 1)) M x :=
      added_append [e] (entries.take k) x
    obtain ⟨hcrash, hdone⟩ := ih _ _ faults s htorn hs
    refine ⟨?_, fun hok => ?_⟩
    · obtain ⟨n, m, henc', hstore⟩ := hcrash
      refine ⟨n + 1, m + 1, ?_, hstore.congr (hcons n L) (hcons m F)⟩
      rw [Nat.add_max_add_right]
      exact forall_mem_cons.mpr ⟨henc e (by simp), henc'⟩
    · obtain ⟨henc', hstore⟩ := hdone hok
      exact ⟨forall_mem_cons.mpr ⟨henc e (by simp), henc'⟩,
        hstore.congr (added_append [e] entries) (added_append [e] entries)⟩

lemma leads_publishWalEntriesBatch (cfg : WriterConfig κ) (entries : List (WalEntry κ)) :
    Publishes cfg (cfg.publishWalEntriesBatch entries) entries := by
  intro L F
  cases entries with
  | nil => exact leads_flatMap_publishWalEntry [] L F
  | cons first rest =>
    simp only [WriterConfig.publishWalEntriesBatch]
    split_ifs with hblob henc
    · -- one append for the whole batch
      refine (leads_enforceFence first.shardId fun s hs => .none hs).append ?_
      have hflatten := cfg.flatten_batchRecords (first :: rest)
      have hbatch := leads_publishRecords (cfg.batchRecords (first :: rest)) hblob.1
        (fun e he => hblob.2 e (hflatten ▸ he)) (fun e he => henc e (hflatten ▸ he))
      rw [hflatten] at hbatch
      exact hbatch L F
    · refine (leads_enforceFence first.shardId fun s hs => .none hs).append ?_
      exact leads_refuse first.shardId fun s hs => .none hs
    · exact leads_flatMap_publishWalEntry (first :: rest) L F

end TemporalStore.Shared
