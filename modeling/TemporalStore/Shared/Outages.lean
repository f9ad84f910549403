import TemporalStore.Shared.Mirrored

namespace TemporalStore.Shared

open Lib List

variable {κ : Type}

namespace StorageWriter

variable (cfg : WriterConfig κ) (shardId : ℕ) (commands : List κ) (w : StorageWriter κ)

/-- The entries of the commands written to one shard. -/
def shardEntries : List (WalEntry κ) :=
  entriesOf (commands.map fun c => (shardId, c))

lemma shardEntries_concat (command : κ) : shardEntries shardId (commands ++ [command]) =
      shardEntries shardId commands ++ [⟨shardId, commands.length + 1, command⟩] := by
  rw [shardEntries, map_append, map_singleton, entriesOf_concat, length_map, shardEntries]

lemma map_command_shardEntries :
    (shardEntries shardId commands).map WalEntry.command = commands := by
  have := congrArg (map Prod.snd) (map_entriesOf (commands.map fun c => (shardId, c)))
  rw [map_map, map_map] at this
  exact this.trans (map_id commands)

lemma length_shardEntries : (shardEntries shardId commands).length = commands.length := by
  simp [shardEntries, entriesOf]

/-- Whether a call may be made: no operation leaves a part of its bytes, and a write that has to
publish itself at once finds no queue in front of it and gets all its operations done, unless the
process stops. -/
def Careful : WriterCall κ → Prop
  | .write s command faults =>
    s = shardId ∧ Untorn faults ∧
      if cfg.mode = .sync then AnsweredAll (directPlan cfg (w.nextEntry s command)) faults
      else ¬w.atCapacity cfg
  | .flush _ faults => Untorn faults

def AllCareful (cfg : WriterConfig κ) (shardId : ℕ) : StorageWriter κ → List (WriterCall κ) → Prop
  | _, [] => True
  | w, call :: calls =>
    w.Careful cfg shardId call ∧ AllCareful cfg shardId (step cfg w call) calls

/-- First parts of the entries are in the log; at least the first `q`, which includes all that were
reported as published. -/
structure Kept (q : ℕ) (store : SharedStore κ) (published : List (WalEntry κ)) : Prop where
  log : ∃ k m, q ≤ k ∧ q ≤ m ∧ Holds cfg.appendMode (· ∈ (shardEntries shardId commands).take k)
    (· ∈ (shardEntries shardId commands).take m) store
  published : ∀ e ∈ published, e ∈ (shardEntries shardId commands).take q

/-- While the process runs, what is queued follows what is in the log. -/
structure Intact : Prop where
  next : w.nextWalIndex = commands.length + 1
  kept : ∃ q, q ≤ commands.length ∧ Kept cfg shardId commands q w.store w.published ∧
    (w.stopped = false → w.pending = (shardEntries shardId commands).drop q)
  queue : cfg.mode = .sync → w.pending = []

variable {cfg shardId commands w}

lemma shardId_of_mem_shardEntries {e : WalEntry κ} (h : e ∈ shardEntries shardId commands) :
    e.shardId = shardId := by
  have := mem_entriesOf h
  simp only [mem_map, Prod.mk.injEq] at this
  obtain ⟨c, -, hshard, -⟩ := this
  exact hshard.symm

lemma intact_start : Intact cfg shardId [] (start : StorageWriter κ) where
  next := rfl
  kept := by
    refine ⟨0, le_rfl, ⟨⟨0, 0, le_rfl, le_rfl, ?_⟩, by simp [start]⟩, fun _ => rfl⟩
    exact holds_empty.congr (by simp) (by simp)
  queue _ := rfl

variable {q : ℕ}

lemma added_take {es : List (WalEntry κ)} {k n : ℕ} (hq : q ≤ k) (e : WalEntry κ) :
    Added ((es.drop q).take n) (· ∈ es.take k) e ↔ e ∈ es.take (max k (q + n)) := by
  have hsplit : es.take (q + n) = es.take q ++ (es.drop q).take n := take_add
  rcases Nat.le_total k (q + n) with hle | hle
  · rw [max_eq_right hle, hsplit, mem_append]
    constructor
    · rintro (he | he)
      · exact mem_append.mp (hsplit ▸ take_subset_take_left es hle he)
      · exact .inr he
    · rintro (he | he)
      · exact .inl (take_subset_take_left es hq he)
      · exact .inr he
  · rw [max_eq_left hle]
    constructor
    · rintro (he | he)
      · exact he
      · have hmem : e ∈ es.take (q + n) := hsplit ▸ mem_append_right _ he
        exact take_subset_take_left es hle hmem
    · exact .inl

variable {store : SharedStore κ} {published : List (WalEntry κ)} {faults : List (List Attempt)}

section

variable (h : Kept cfg shardId commands q store published)
include h

lemma Kept.publish {n : ℕ} {entries : List (WalEntry κ)}
    (hents : entries = ((shardEntries shardId commands).drop q).take n)
    (plan : List (Operation (SharedStore κ)))
    (hplan : Publishes cfg plan entries) (htorn : Untorn faults) :
    Kept cfg shardId commands q (performAll plan faults store).2 published ∧
      ((performAll plan faults store).1 = .ok →
        Kept cfg shardId commands (q + n) (performAll plan faults store).2
          (published ++ entries)) := by
  subst hents
  obtain ⟨⟨k, m, hk, hm, hholds⟩, hpub⟩ := h
  obtain ⟨hcrash, hdone⟩ := hplan _ _ faults store htorn hholds
  constructor
  · obtain ⟨a, b, -, hpart⟩ := hcrash
    rw [take_take, take_take] at hpart
    refine ⟨⟨_, _, ?_, ?_, hpart.congr (added_take hk) (added_take hm)⟩, hpub⟩
    · exact hk.trans (le_max_left _ _)
    · exact hm.trans (le_max_left _ _)
  · intro hok
    obtain ⟨-, hfull⟩ := hdone hok
    refine ⟨⟨_, _, le_max_right _ _, le_max_right _ _,
      hfull.congr (added_take hk) (added_take hm)⟩, fun e he => ?_⟩
    rw [take_add, mem_append]
    exact (mem_append.mp he).imp (hpub e) id

lemma Kept.extend (hq : q ≤ commands.length) (command : κ) :
    Kept cfg shardId (commands ++ [command]) q store published := by
  have htake {k : ℕ} (hk : k ≤ commands.length) :
      (shardEntries shardId (commands ++ [command])).take k =
      (shardEntries shardId commands).take k := by
    rw [shardEntries_concat, take_append_of_le_length (by rw [length_shardEntries]; exact hk)]
  have hclip (k : ℕ) : (shardEntries shardId commands).take k =
      (shardEntries shardId commands).take (min k commands.length) := by
    rw [← take_take, take_of_length_le (Nat.le_of_eq (length_shardEntries shardId commands))]
  obtain ⟨⟨k, m, hk, hm, hholds⟩, hpub⟩ := h
  rw [hclip k, hclip m, ← htake (Nat.min_le_right k _), ← htake (Nat.min_le_right m _)] at hholds
  refine ⟨⟨_, _, by omega, by omega, hholds⟩, fun e he => ?_⟩
  rw [htake hq]
  exact hpub e he

lemma Kept.clip : Kept cfg shardId commands (min q commands.length) store published := by
  obtain ⟨⟨k, m, hk, hm, hholds⟩, hpub⟩ := h
  refine ⟨⟨k, m, by omega, by omega, hholds⟩, fun e he => ?_⟩
  rw [← length_shardEntries shardId commands, ← take_take, take_length]
  exact hpub e he

end

section

variable (h : Intact cfg shardId commands w)
include h

lemma Intact.publish (hrunning : w.stopped = false) (hsync : cfg.mode = .sync) {command : κ}
    (htorn : Untorn faults)
    (hansw : AnsweredAll (directPlan cfg (w.nextEntry shardId command)) faults) :
    Intact cfg shardId (commands ++ [command]) (w.publish (w.nextEntry shardId command)
      (directPlan cfg (w.nextEntry shardId command)) faults) := by
  obtain ⟨q, hq, hkept, hpend⟩ := h.kept
  have hempty := h.queue hsync
  have hlast : q = commands.length := by
    have hlen := congrArg length ((hpend hrunning).symm.trans hempty)
    rw [length_drop, length_shardEntries, length_nil] at hlen
    omega
  set entry := w.nextEntry shardId command with hent
  have hdrop : (shardEntries shardId (commands ++ [command])).drop q = [entry] := by
    rw [shardEntries_concat, hlast, ← length_shardEntries shardId commands, drop_left,
      length_shardEntries, hent, nextEntry, h.next]
  obtain ⟨hcrash, hdone⟩ := (hkept.extend hq command).publish (n := 1)
    (congrArg (take 1) hdrop).symm (directPlan cfg entry)
    (leads_directPlan cfg entry) htorn
  have herror := performAll_ne_error (s := w.store) hansw
  have hnext : w.nextWalIndex + 1 = (commands ++ [command]).length + 1 := by
    rw [h.next, length_append, length_singleton]
  have hlen : (commands ++ [command]).length = q + 1 := by
    rw [length_append, length_singleton, hlast]
  rw [StorageWriter.publish]
  cases hrun : performAll (directPlan cfg entry) faults w.store with
  | mk outcome store =>
    rw [hrun] at hcrash hdone herror
    cases outcome with
    | error => exact absurd rfl herror
    | ok =>
      refine ⟨hnext, ⟨q + 1, hlen.ge, ?_, fun _ => ?_⟩, h.queue⟩
      · exact hdone rfl
      · rw [← drop_drop, hdrop]
        exact hempty
    | stopped =>
      exact ⟨hnext, ⟨q, by omega, hcrash, fun hgoes => by cases hgoes⟩, h.queue⟩

lemma Intact.enqueue (hasync : cfg.mode ≠ .sync) (command : κ) :
    Intact cfg shardId (commands ++ [command]) { w with
      nextWalIndex := w.nextWalIndex + 1
      pending := w.pending ++ [w.nextEntry shardId command] } := by
  obtain ⟨q, hq, hkept, hpend⟩ := h.kept
  refine ⟨?_, ⟨q, ?_, hkept.extend hq command, fun hrunning => ?_⟩,
    fun hsync => absurd hsync hasync⟩
  · rw [h.next, length_append, length_singleton]
  · rw [length_append]
    omega
  · rw [hpend hrunning, shardEntries_concat,
      drop_append_of_le_length (by rw [length_shardEntries]; exact hq), nextEntry, h.next]

lemma Intact.flush (hrunning : w.stopped = false) (maxEntries : ℕ) (htorn : Untorn faults) :
    Intact cfg shardId commands (w.flushPending cfg maxEntries faults) := by
  obtain ⟨q, hq, hkept, hpend⟩ := h.kept
  have hdrained : w.drained maxEntries =
      ((shardEntries shardId commands).drop q).take (max maxEntries 1) := by
    rw [drained, hpend hrunning]
  obtain ⟨hcrash, hdone⟩ := hkept.publish hdrained
    (cfg.publishWalEntriesBatch (w.drained maxEntries))
    (leads_publishWalEntriesBatch cfg (w.drained maxEntries)) htorn
  have hqueue : ∀ l : List (WalEntry κ), l ⊆ w.pending → cfg.mode = .sync → l = [] := by
    intro l hl hsync
    rw [h.queue hsync] at hl
    exact subset_nil.mp hl
  rw [flushPending]
  cases hrun : performAll (cfg.publishWalEntriesBatch (w.drained maxEntries)) faults w.store with
  | mk outcome store =>
    rw [hrun] at hcrash hdone
    cases outcome with
    | ok =>
      refine ⟨h.next, ⟨min (q + max maxEntries 1) commands.length, Nat.min_le_right _ _, ?_,
        fun _ => ?_⟩, hqueue _ (drop_subset _ _)⟩
      · exact (hdone rfl).clip
      · rw [hpend hrunning, drop_drop]
        rcases Nat.le_total (q + max maxEntries 1) commands.length with hle | hle
        · rw [min_eq_left hle]
        · -- the queue is used up
          rw [min_eq_right hle, drop_of_length_le (by rw [length_shardEntries]; exact hle),
            drop_of_length_le (length_shardEntries shardId commands).le]
    | error =>
      have hback : w.drained maxEntries ++ w.pending.drop (max maxEntries 1) = w.pending :=
        take_append_drop _ _
      exact ⟨h.next, ⟨q, hq, hcrash, fun _ => hback.trans (hpend hrunning)⟩,
        fun hsync => hback.trans (h.queue hsync)⟩
    | stopped =>
      exact ⟨h.next, ⟨q, hq, hcrash, fun hgoes => by cases hgoes⟩, hqueue _ (drop_subset _ _)⟩

lemma Intact.step {call : WriterCall κ} (hcare : w.Careful cfg shardId call) :
    ∃ commands', Intact cfg shardId commands' (w.step cfg call) := by
  rw [step.eq_def]
  split_ifs with hstopped
  · exact ⟨commands, h⟩
  · have hrunning : w.stopped = false := by simpa using hstopped
    cases call with
    | write s command faults =>
      obtain ⟨rfl, htorn, hcase⟩ := hcare
      refine ⟨commands ++ [command], ?_⟩
      change Intact cfg s (commands ++ [command]) (w.write cfg s command faults)
      rw [write]
      by_cases hsync : cfg.mode = .sync
      · rw [if_pos hsync] at hcase
        rw [if_pos (.inl hsync)]
        exact h.publish hrunning hsync htorn hcase
      · rw [if_neg hsync] at hcase
        rw [if_neg (not_or.mpr ⟨hsync, hcase⟩)]
        exact h.enqueue hsync command
    | flush maxEntries faults => exact ⟨commands, h.flush hrunning maxEntries hcare⟩

lemma Intact.run {calls : List (WriterCall κ)} (hcare : AllCareful cfg shardId w calls) :
    ∃ commands', Intact cfg shardId commands' (w.run cfg calls) := by
  induction calls generalizing w commands with
  | nil => exact ⟨commands, h⟩
  | cons call calls ih =>
    obtain ⟨commands', h'⟩ := h.step hcare.1
    exact ih h' hcare.2

/-- The log of an intact writer replays, and what was reported as published is in the replay. -/
lemma Intact.replayWal :
    ∃ delivered, replayWal cfg.appendMode (w.store shardId) shardId 0 = .ok delivered ∧
      ∀ e ∈ w.published, e ∈ delivered := by
  obtain ⟨q, hq, ⟨⟨k, m, hk, hm, hholds⟩, hpub⟩, -⟩ := h.kept
  set es := shardEntries shardId commands with hes
  have hnum : Numbered WalEntry.walIndex 1 es := numbered_entriesOf _
  have hcarr (n i : ℕ) : Carries (· ∈ es.take n) shardId i ↔ ∃ e ∈ es.take n, e.walIndex = i := by
    rw [carries_iff_of_shard fun e he => shardId_of_mem_shardEntries (hes ▸ mem_of_mem_take he)]
    simp
  have hcov (n : ℕ) : Covers (Carries (· ∈ es.take n) shardId) (es.take n).length := by
    intro i
    rw [hcarr]
    exact covers_of_numbered (hnum.take n) i
  have hgen : (w.store shardId).Genuine fun e => e ∈ es ∧ e.shardId = shardId :=
    (hholds.genuine shardId).mono fun e he =>
      ⟨he.1.elim mem_of_mem_take mem_of_mem_take, he.2⟩
  obtain ⟨n, hn, hrepl⟩ := replayWal_of_covers hnum hgen (hholds.plain shardId)
    (fun i => (hholds.landed shardId i).trans (hcov k i))
    fun hmode => ⟨_, fun i => (hholds.framed hmode shardId i).trans (hcov m i)⟩
  refine ⟨es.take n, hrepl, fun e he => take_subset_take_left es ?_ (hpub e he)⟩
  rw [length_take, length_shardEntries] at hn
  omega

end

/-- Whatever fails and wherever the process stops, the log replays from its start with every entry
reported as published, as long as all calls are made with care. -/
theorem replayWal_published (cfg : WriterConfig κ) (shardId : ℕ) (calls : List (WriterCall κ))
    (h : AllCareful cfg shardId start calls) : ∃ delivered,
      Shared.replayWal cfg.appendMode ((start.run cfg calls).store shardId) shardId 0 =
        .ok delivered ∧ ∀ e ∈ (start.run cfg calls).published, e ∈ delivered := by
  obtain ⟨commands, hintact⟩ := intact_start.run h
  exact hintact.replayWal

/-- The second write fails in front of its index append and the process stops there. -/
theorem replayWal_published_stopped :
    ∃ delivered, Shared.replayWal .protobufAppendBlob ((start.run syncConfig
        [.write 1 7 [], .write 1 8 [[.done], [.stop]]]).store 1) 1 0 = .ok delivered ∧
      ∀ e ∈ (start.run syncConfig [.write 1 7 [], .write 1 8 [[.done], [.stop]]]).published,
        e ∈ delivered :=
  replayWal_published syncConfig 1 [.write 1 7 [], .write 1 8 [[.done], [.stop]]]
    ⟨⟨rfl, by simp [Untorn], .inl (by decide), .inl (by decide), trivial⟩,
      ⟨rfl, by simp [Untorn], .inr (by decide), .inr (by decide), trivial⟩, trivial⟩

/-- A command without an encoding takes index 1 with it: the next write is reported as published
with index 2, and the log can no longer be replayed. -/
theorem not_replayWal_published_refused : ¬∃ delivered, Shared.replayWal .protobufAppendBlob
        ((start.run syncConfig [.write 1 0 [], .write 1 7 []]).store 1) 1 0 = .ok delivered ∧
      ∀ e ∈ (start.run syncConfig [.write 1 0 [], .write 1 7 []]).published, e ∈ delivered := by
  rintro ⟨delivered, hreplay, -⟩
  have hgap : Shared.replayWal .protobufAppendBlob
      ((start.run syncConfig [.write 1 0 [], .write 1 7 []]).store 1) 1 0 =
        .error (.gap 1 2) := rfl
  cases hreplay

end StorageWriter

end TemporalStore.Shared
