import TemporalStore.Lib.Lists
import TemporalStore.Lib.Result

/-! # Sharing barriers (`flush_gate.rs`) -/

namespace TemporalStore.FlushGate

open Lib List Function

structure GateState where
  issued : ℕ
  durable : ℕ
  inFlight : Bool
  deriving DecidableEq

namespace GateState

variable (gate : GateState)

def registerWrite : GateState := { gate with issued := gate.issued + 1 }

def take : GateState := { gate with inFlight := true }

/-- A barrier for the tickets up to `target` ends. -/
def finish (target : ℕ) (ok : Bool) : GateState :=
  ⟨gate.issued, if ok then max gate.durable target else gate.durable, false⟩

end GateState

/-- Where a writer is in `await_durable`. A barrier has a target, the tickets it counts for. -/
inductive Phase where
  | waiting
  | parked
  | running (target : ℕ)
  | returned (ok : Bool)
  deriving DecidableEq

/-- The writer can look at the gate. One that has returned may wait again with its ticket. -/
def Phase.awake : Phase → Bool
  | .waiting | .returned _ => true
  | .parked | .running _ => false

/-- What `notify_all` makes of a writer. -/
def Phase.notified : Phase → Phase
  | .parked => .waiting
  | phase => phase

/-- The gate with its writers, each known by its ticket. -/
structure Gate where
  state : GateState
  phase : ℕ → Phase

def Gate.start : Gate := ⟨⟨0, 0, false⟩, fun _ => .waiting⟩

/-- What the writers do. The ticket is that of the writer, which is the first to register, the
second and so on. A parked writer may wake although nothing notified it. -/
inductive Event where
  | registerWrite
  | ride (ticket : ℕ)
  | take (ticket : ℕ)
  | park (ticket : ℕ)
  | wake (ticket : ℕ)
  | finish (ticket : ℕ) (ok : Bool)
  deriving DecidableEq

/-- One turn under the lock; an error where it is not the writer's turn. -/
def Gate.step (gate : Gate) : Event → Except Unit Gate
  | .registerWrite => .ok { gate with state := gate.state.registerWrite }
  | .ride ticket =>
    if (gate.phase ticket).awake ∧ 0 < ticket ∧ ticket ≤ gate.state.durable then
      .ok { gate with phase := update gate.phase ticket (.returned true) }
    else .error ()
  | .take ticket =>
    if (gate.phase ticket).awake ∧ ticket ≤ gate.state.issued ∧ gate.state.durable < ticket ∧
        gate.state.inFlight = false then
      .ok ⟨gate.state.take, update gate.phase ticket (.running gate.state.issued)⟩
    else .error ()
  | .park ticket =>
    if (gate.phase ticket).awake ∧ ticket ≤ gate.state.issued ∧ gate.state.durable < ticket ∧
        gate.state.inFlight = true then
      .ok { gate with phase := update gate.phase ticket .parked }
    else .error ()
  | .wake ticket =>
    if gate.phase ticket = .parked then
      .ok { gate with phase := update gate.phase ticket .waiting }
    else .error ()
  | .finish ticket ok =>
    match gate.phase ticket with
    | .running target => .ok ⟨gate.state.finish target ok,
        update (fun t => (gate.phase t).notified) ticket (.returned ok)⟩
    | _ => .error ()

/-- A barrier was taken behind the registration of the tickets up to `target`. -/
def Taken (events : List Event) (ticket target : ℕ) : Prop :=
  ∃ before after, events = before ++ .take ticket :: after ∧ target ≤ before.count .registerWrite

/-- A barrier that was taken behind the registration of the ticket has succeeded. -/
def Covered (events : List Event) (ticket : ℕ) : Prop :=
  ∃ before after taker, events = before ++ [.finish taker true] ++ after ∧ Taken before taker ticket

structure Gate.Inv (events : List Event) (gate : Gate) : Prop where
  issued : gate.state.issued = events.count .registerWrite
  running : ∀ t target, gate.phase t = .running target →
    gate.state.inFlight = true ∧ t ≤ target ∧ Taken events t target
  alone : ∀ t t' x y, gate.phase t = .running x → gate.phase t' = .running y → t = t'
  durable : ∀ t, 0 < t → t ≤ gate.state.durable → Covered events t
  returned : ∀ t, gate.phase t = .returned true → Covered events t
  /-- A barrier in flight has a writer that runs it. -/
  manned : gate.state.inFlight = true → ∃ t target, gate.phase t = .running target
  /-- No writer sleeps through the end of a barrier. -/
  parked : ∀ t, gate.phase t = .parked → gate.state.inFlight = true

lemma Taken.concat {events : List Event} {t target : ℕ} (h : Taken events t target)
    (event : Event) : Taken (events ++ [event]) t target := by
  obtain ⟨before, after, rfl, hle⟩ := h
  exact ⟨before, after ++ [event], by simp, hle⟩

lemma Covered.concat {events : List Event} {t : ℕ} (h : Covered events t) (event : Event) :
    Covered (events ++ [event]) t := by
  obtain ⟨before, after, taker, rfl, htaken⟩ := h
  exact ⟨before, after ++ [event], taker, by simp, htaken⟩

lemma Gate.inv_start : start.Inv [] :=
  ⟨rfl, nofun, nofun, fun _ hpos hle => absurd hpos (not_lt.mpr hle), nofun, nofun, nofun⟩

variable {events : List Event} {gate next : Gate}

lemma Phase.ne_running_of_awake {phase : Phase} (h : phase.awake) (target : ℕ) :
    phase ≠ .running target := by
  rintro rfl
  cases h

lemma Gate.Inv.move (h : gate.Inv events) (event : Event) (hevent : event ≠ .registerWrite)
    (ticket : ℕ) (phase : Phase) (hold : ∀ target, gate.phase ticket ≠ .running target)
    (hnew : ∀ target, phase ≠ .running target)
    (hret : phase = .returned true → Covered events ticket)
    (hpark : phase = .parked → gate.state.inFlight = true) :
    Gate.Inv (events ++ [event]) { gate with phase := update gate.phase ticket phase } where
  issued := by
    rw [count_append, count_singleton, if_neg (by simpa using hevent), Nat.add_zero]
    exact h.issued
  running t target ht := by
    obtain ⟨-, rfl⟩ | ⟨-, ht⟩ := update_eq_iff.mp ht
    · exact absurd rfl (hnew target)
    · exact (h.running t target ht).imp_right (·.imp_right (·.concat event))
  alone t t' x y ht ht' := by
    obtain ⟨-, rfl⟩ | ⟨-, ht⟩ := update_eq_iff.mp ht
    · exact absurd rfl (hnew x)
    · obtain ⟨-, rfl⟩ | ⟨-, ht'⟩ := update_eq_iff.mp ht'
      · exact absurd rfl (hnew y)
      · exact h.alone t t' x y ht ht'
  durable t hpos ht := (h.durable t hpos ht).concat event
  returned t ht := by
    obtain ⟨rfl, rfl⟩ | ⟨-, ht⟩ := update_eq_iff.mp ht
    · exact (hret rfl).concat event
    · exact (h.returned t ht).concat event
  manned hbusy := by
    obtain ⟨t, target, ht⟩ := h.manned hbusy
    refine ⟨t, target, update_eq_iff.mpr (.inr ⟨?_, ht⟩)⟩
    rintro rfl
    exact hold target ht
  parked t ht := by
    obtain ⟨-, rfl⟩ | ⟨-, ht⟩ := update_eq_iff.mp ht
    · exact hpark rfl
    · exact h.parked t ht

lemma Gate.Inv.take (h : gate.Inv events) {ticket : ℕ} (hissued : ticket ≤ gate.state.issued)
    (hfree : gate.state.inFlight = false) : Gate.Inv (events ++ [.take ticket])
      ⟨gate.state.take, update gate.phase ticket (.running gate.state.issued)⟩ := by
  -- no barrier was running, so the one taken is the only one
  have hidle (t target : ℕ) : gate.phase t ≠ .running target := fun ht => by
    simpa [hfree] using (h.running t target ht).1
  refine ⟨by simp [GateState.take, h.issued], fun t target ht => ⟨rfl, ?_⟩,
    fun t t' x y ht ht' => ?_, fun t hpos ht => (h.durable t hpos ht).concat _, fun t ht => ?_,
    fun _ => ⟨ticket, _, update_self ..⟩, fun _ _ => rfl⟩
  · obtain ⟨rfl, ⟨⟩⟩ | ⟨-, ht⟩ := update_eq_iff.mp ht
    · exact ⟨hissued, events, [], rfl, h.issued.le⟩
    · exact absurd ht (hidle t target)
  · obtain ⟨rfl, -⟩ | ⟨-, ht⟩ := update_eq_iff.mp ht
    · obtain ⟨rfl, -⟩ | ⟨-, ht'⟩ := update_eq_iff.mp ht'
      · rfl
      · exact absurd ht' (hidle t' y)
    · exact absurd ht (hidle t x)
  · obtain ⟨-, ⟨⟩⟩ | ⟨-, ht⟩ := update_eq_iff.mp ht
    exact (h.returned t ht).concat _

lemma phase_finish (phase : ℕ → Phase) (ticket : ℕ) (ok : Bool) (t : ℕ) :
    update (fun t => (phase t).notified) ticket (.returned ok) t ≠ .parked := by
  intro ht
  obtain ⟨-, ⟨⟩⟩ | ⟨-, ht⟩ := update_eq_iff.mp ht
  cases hphase : phase t <;> simp [hphase, Phase.notified] at ht

lemma Gate.Inv.finish (h : gate.Inv events) {ticket target : ℕ}
    (hphase : gate.phase ticket = .running target) (ok : Bool) :
    Gate.Inv (events ++ [.finish ticket ok]) ⟨gate.state.finish target ok,
      update (fun t => (gate.phase t).notified) ticket (.returned ok)⟩ := by
  obtain ⟨-, hle, before, after, heq, htarget⟩ := h.running ticket target hphase
  have hnotified {t : ℕ} {p : Phase} (hp : p ≠ .waiting) (ht : (gate.phase t).notified = p) :
      gate.phase t = p := by
    cases hold : gate.phase t <;> simp_all [Phase.notified]
  have hidle {t x : ℕ} (ht : update (fun t => (gate.phase t).notified) ticket (.returned ok) t =
      .running x) : False := by
    obtain ⟨-, ⟨⟩⟩ | ⟨hne, ht⟩ := update_eq_iff.mp ht
    exact hne (h.alone t ticket x target (hnotified (by simp) ht) hphase)
  have hcov (hok : ok = true) (t : ℕ) (ht : t ≤ target) :
      Covered (events ++ [.finish ticket ok]) t :=
    ⟨events, [], ticket, by simp [hok], before, after, heq, ht.trans htarget⟩
  refine ⟨by simp [GateState.finish, h.issued], fun t x ht => (hidle ht).elim,
    fun t t' x y ht => (hidle ht).elim, fun t hpos ht => ?_, fun t ht => ?_, nofun,
    fun t ht => absurd ht (phase_finish gate.phase ticket ok t)⟩
  · cases ok with
    | false => exact (h.durable t hpos ht).concat _
    | true =>
      have hmax : t ≤ max gate.state.durable target := ht
      rcases (show t ≤ gate.state.durable ∨ t ≤ target by omega) with ht | ht
      · exact (h.durable t hpos ht).concat _
      · exact hcov rfl t ht
  · have hphase' : update (fun t => (gate.phase t).notified) ticket (.returned ok) t =
        .returned true := ht
    obtain ⟨rfl, ⟨⟩⟩ | ⟨-, ht⟩ := update_eq_iff.mp hphase'
    · exact hcov rfl t hle
    · exact (h.returned t (hnotified (by simp) ht)).concat _

lemma ok_of_guard {p : Prop} [Decidable p]
    (h : (if p then .ok gate else .error () : Except Unit Gate) = .ok next) : p ∧ gate = next := by
  split at h
  case isTrue hp => exact ⟨hp, Except.ok.inj h⟩
  case isFalse => cases h

lemma Gate.Inv.step {event : Event} (h : gate.Inv events) (hstep : gate.step event = .ok next) :
    next.Inv (events ++ [event]) := by
  cases event with
  | registerWrite =>
    cases hstep
    exact ⟨by simp [GateState.registerWrite, h.issued],
      fun t target ht => (h.running t target ht).imp_right (·.imp_right (·.concat _)), h.alone,
      fun t hpos ht => (h.durable t hpos ht).concat _, fun t ht => (h.returned t ht).concat _,
      h.manned, h.parked⟩
  | ride ticket =>
    obtain ⟨hg, rfl⟩ := ok_of_guard hstep
    exact h.move (.ride ticket) nofun ticket (.returned true) (Phase.ne_running_of_awake hg.1)
      nofun (fun _ => h.durable ticket hg.2.1 hg.2.2) nofun
  | take ticket =>
    obtain ⟨hg, rfl⟩ := ok_of_guard hstep
    exact h.take hg.2.1 hg.2.2.2
  | park ticket =>
    obtain ⟨hg, rfl⟩ := ok_of_guard hstep
    exact h.move (.park ticket) nofun ticket .parked (Phase.ne_running_of_awake hg.1) nofun nofun
      fun _ => hg.2.2.2
  | wake ticket =>
    obtain ⟨hg, rfl⟩ := ok_of_guard hstep
    refine h.move (.wake ticket) nofun ticket .waiting (fun target => ?_) nofun nofun nofun
    rw [hg]
    exact nofun
  | finish ticket ok =>
    simp only [Gate.step] at hstep
    split at hstep
    case h_2 => cases hstep
    case h_1 target hphase =>
      cases hstep
      exact h.finish hphase ok

lemma Gate.inv_run (h : events.foldlM Gate.step Gate.start = .ok gate) : gate.Inv events :=
  foldlM_invariant (fun events gate => gate.Inv events)
    (fun _ _ _ _ hs hstep => hs.step hstep) Gate.inv_start h

/-- Whatever the writers do and whichever barriers fail, a wait that returned success is covered by
a barrier that was taken behind the registration and succeeded, and one barrier runs at a time. -/
theorem await_durable_run (events : List Event) (gate : Gate)
    (h : events.foldlM Gate.step Gate.start = .ok gate) :
    (∀ ticket, gate.phase ticket = .returned true → Covered events ticket) ∧
      ∀ t t' x y, gate.phase t = .running x → gate.phase t' = .running y → t = t' :=
  ⟨(Gate.inv_run h).returned, (Gate.inv_run h).alone⟩

/-- Two writers. The second parks; the barrier of the first fails, and it rides that of the
second. -/
def twoWriters : List Event :=
  [.registerWrite, .take 1, .registerWrite, .park 2, .finish 1 false, .take 2, .finish 2 true,
    .ride 1]

theorem await_durable_run_twoWriters : ∃ gate, twoWriters.foldlM Gate.step Gate.start = .ok gate ∧
    Covered twoWriters 1 ∧ Covered twoWriters 2 :=
  ⟨_, rfl, (await_durable_run twoWriters _ rfl).1 1 rfl,
    (await_durable_run twoWriters _ rfl).1 2 rfl⟩

/-- No writer that registered is stuck. While no barrier runs nobody sleeps, and the writer can ride
one or take one; a barrier that runs has a writer that ends it, well or not, and this wakes
everyone. -/
theorem await_durable_progress (events : List Event) (gate : Gate)
    (h : events.foldlM Gate.step Gate.start = .ok gate) (ticket : ℕ) (hpos : 0 < ticket)
    (hle : ticket ≤ gate.state.issued) :
    (gate.state.inFlight = false → (∀ t, gate.phase t ≠ .parked) ∧
      ∃ next, gate.step (.ride ticket) = .ok next ∨ gate.step (.take ticket) = .ok next) ∧
    (gate.state.inFlight = true → ∃ runner, ∀ ok, ∃ next,
      gate.step (.finish runner ok) = .ok next ∧ next.state.inFlight = false ∧
        ∀ t, next.phase t ≠ .parked) := by
  have hinv := Gate.inv_run h
  constructor
  · intro hfree
    have hawake (t : ℕ) : (gate.phase t).awake = true := by
      cases hphase : gate.phase t with
      | parked => simpa [hfree] using hinv.parked t hphase
      | running target => simpa [hfree] using (hinv.running t target hphase).1
      | waiting | returned => rfl
    refine ⟨fun t ht => by simpa [ht, Phase.awake] using hawake t, ?_⟩
    by_cases hdurable : ticket ≤ gate.state.durable
    · exact ⟨_, .inl (if_pos ⟨hawake ticket, hpos, hdurable⟩)⟩
    · exact ⟨_, .inr (if_pos ⟨hawake ticket, hle, not_le.mp hdurable, hfree⟩)⟩
  · intro hbusy
    obtain ⟨runner, target, hrun⟩ := hinv.manned hbusy
    refine ⟨runner, fun ok => ?_⟩
    simp only [Gate.step, hrun]
    exact ⟨_, rfl, rfl, phase_finish gate.phase runner ok⟩

/-- The second writer is parked behind the barrier of the first. -/
theorem await_durable_progress_parked :
    ∃ gate, (twoWriters.take 4).foldlM Gate.step Gate.start = .ok gate ∧ gate.phase 2 = .parked ∧
      ∃ runner, ∀ ok, ∃ next, gate.step (.finish runner ok) = .ok next ∧
        next.state.inFlight = false ∧ ∀ t, next.phase t ≠ .parked :=
  ⟨_, rfl, rfl, (await_durable_progress (twoWriters.take 4) _ rfl 2 (by decide) le_rfl).2 rfl⟩

end TemporalStore.FlushGate
