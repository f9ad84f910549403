import TemporalStore.Raft.Cluster

/-! # Commands too large for a log entry (`split_command_for_raft_limit`) -/

namespace TemporalStore.Raft.Split

open List

inductive Command (κ ρ γ : Type) where
  | sequenceAdd (key : κ) (rows : List ρ)
  | other (command : γ)
  deriving DecidableEq

variable {κ ρ γ : Type}

/-- `command_size_bytes`: the length of an encoding that more rows do not make shorter. -/
structure CommandSize (κ ρ γ : Type) where
  bytes : Command κ ρ γ → ℕ
  mono : ∀ key {rows rows'}, rows.Sublist rows' →
    bytes (.sequenceAdd key rows) ≤ bytes (.sequenceAdd key rows')

namespace CommandSize

variable (size : CommandSize κ ρ γ) (limit : ℕ) (key : κ)

def tooLarge (command : Command κ ρ γ) : RaftError := .logEntryTooLarge (size.bytes command) limit

/-- The loop over the rows, with those of the chunk it fills. -/
def splitRows : List ρ → List ρ → Except RaftError (List (Command κ ρ γ))
  | current, [] => .ok (if current.isEmpty then [] else [.sequenceAdd key current])
  | current, row :: rows =>
    if size.bytes (.sequenceAdd key (current ++ [row])) ≤ limit then
      splitRows (current ++ [row]) rows
    else if current.isEmpty then
      .error (size.tooLarge limit (.sequenceAdd key (current ++ [row])))
    else if limit < size.bytes (.sequenceAdd key [row]) then
      .error (size.tooLarge limit (.sequenceAdd key [row]))
    else (splitRows [row] rows).map (.sequenceAdd key current :: ·)

def splitCommandForRaftLimit (command : Command κ ρ γ) : Except RaftError (List (Command κ ρ γ)) :=
  if size.bytes command ≤ limit then .ok [command]
  else match command with
    | .sequenceAdd key rows =>
      if 1 < rows.length then size.splitRows limit key [] rows
      else .error (size.tooLarge limit command)
    | .other _ => .error (size.tooLarge limit command)

variable {size limit key}

/-- The loop fails at a row that does not fit alone. Else the chunks have the rows in order. -/
lemma splitRows_cases {rows current : List ρ}
    (h : current ≠ [] → size.bytes (.sequenceAdd key current) ≤ limit) :
    ((∃ row ∈ rows, limit < size.bytes (.sequenceAdd key [row])) ∧
      ∃ err, size.splitRows limit key current rows = .error err) ∨
    ((∀ row ∈ rows, size.bytes (.sequenceAdd key [row]) ≤ limit) ∧
      ∃ chunks : List (List ρ), size.splitRows limit key current rows =
          .ok (chunks.map (.sequenceAdd key)) ∧ chunks.flatten = current ++ rows ∧
        ∀ chunk ∈ chunks, chunk ≠ [] ∧ size.bytes (.sequenceAdd key chunk) ≤ limit) := by
  induction rows generalizing current with
  | nil =>
    refine .inr ⟨by simp, ?_⟩
    rcases current with _ | ⟨row, rest⟩
    · exact ⟨[], rfl, rfl, by simp⟩
    · exact ⟨[row :: rest], rfl, by simp, by simpa using h⟩
  | cons row rows ih =>
    unfold splitRows
    split
    case isTrue hfit =>
      have hrow := size.mono key (sublist_append_right current [row])
      obtain ⟨⟨big, hb⟩, herr⟩ | ⟨hall, chunks, hok, hflat, hc⟩ := ih fun _ => hfit
      · exact .inl ⟨⟨big, mem_cons_of_mem _ hb.1, hb.2⟩, herr⟩
      · exact .inr ⟨forall_mem_cons.mpr ⟨hrow.trans hfit, hall⟩, chunks, hok, by simp [hflat], hc⟩
    case isFalse hover =>
      -- the row is the first of its chunk, or opens the next one
      split
      case isTrue hnil =>
        rw [isEmpty_iff.mp hnil] at hover ⊢
        exact .inl ⟨⟨row, mem_cons_self, Nat.lt_of_not_le hover⟩, _, rfl⟩
      case isFalse hne =>
        have hne := mt List.isEmpty_iff.mpr hne
        split
        case isTrue hbig => exact .inl ⟨⟨row, mem_cons_self, hbig⟩, _, rfl⟩
        case isFalse hrow =>
          have hrow := Nat.le_of_not_lt hrow
          obtain ⟨⟨big, hb⟩, err, herr⟩ | ⟨hall, chunks, hok, hflat, hc⟩ := ih fun _ => hrow
          · exact .inl ⟨⟨big, mem_cons_of_mem _ hb.1, hb.2⟩, err, by rw [herr]; rfl⟩
          · exact .inr ⟨forall_mem_cons.mpr ⟨hrow, hall⟩, current :: chunks, by rw [hok]; rfl,
              by simp [hflat], forall_mem_cons.mpr ⟨⟨hne, h hne⟩, hc⟩⟩

end CommandSize

/-- A command that adds rows is refused exactly if it is too large and has fewer than two rows, or a
row that is too large alone. Else it becomes commands on its key that fit and carry its rows in
order, none of them empty unless it is itself. -/
theorem splitCommandForRaftLimit_spec (size : CommandSize κ ρ γ) (limit : ℕ) (key : κ)
    (rows : List ρ) :
    ((∃ err, size.splitCommandForRaftLimit limit (.sequenceAdd key rows) = .error err) ↔
      limit < size.bytes (.sequenceAdd key rows) ∧
        (rows.length < 2 ∨ ∃ row ∈ rows, limit < size.bytes (.sequenceAdd key [row]))) ∧
    ∀ commands, size.splitCommandForRaftLimit limit (.sequenceAdd key rows) = .ok commands →
      ∃ chunks : List (List ρ), commands = chunks.map (.sequenceAdd key) ∧ chunks.flatten = rows ∧
        ∀ chunk ∈ chunks, size.bytes (.sequenceAdd key chunk) ≤ limit ∧
          (chunk = [] → rows = []) := by
  unfold CommandSize.splitCommandForRaftLimit
  split
  case isTrue hfit =>
    refine ⟨⟨by simp, fun h => absurd h.1 (Nat.not_lt.mpr hfit)⟩, ?_⟩
    intro commands h
    exact ⟨[rows], (Except.ok.inj h).symm, by simp, by simpa using hfit⟩
  case isFalse hover =>
    have hover := Nat.lt_of_not_le hover
    dsimp only
    split
    case isFalse hfew => exact ⟨⟨fun _ => ⟨hover, .inl (by omega)⟩, fun _ => ⟨_, rfl⟩⟩, by simp⟩
    case isTrue hmany =>
      obtain ⟨hbig, err, herr⟩ | ⟨hall, chunks, hok, hflat, hc⟩ :=
        @CommandSize.splitRows_cases _ _ _ size limit key rows [] (absurd rfl)
      · rw [herr]
        exact ⟨⟨fun _ => ⟨hover, .inr hbig⟩, fun _ => ⟨err, rfl⟩⟩, by simp⟩
      · rw [hok]
        refine ⟨⟨by simp, ?_⟩, ?_⟩
        · rintro ⟨-, hfew | ⟨row, hrow, hbig⟩⟩
          · omega
          · exact absurd hbig (Nat.not_lt.mpr (hall row hrow))
        · rintro _ ⟨⟩
          exact ⟨chunks, rfl, hflat, fun chunk h => ⟨(hc chunk h).2, (absurd · (hc chunk h).1)⟩⟩

def rowCount : CommandSize Unit Unit Unit where
  bytes
    | .sequenceAdd _ rows => rows.length
    | .other _ => 1
  mono _ _ _ h := h.length_le

/-- A command without rows that fits is left as it is. -/
theorem splitCommandForRaftLimit_empty :
    rowCount.splitCommandForRaftLimit 1 (.sequenceAdd () []) = .ok [.sequenceAdd () []] :=
  rfl

end TemporalStore.Raft.Split
