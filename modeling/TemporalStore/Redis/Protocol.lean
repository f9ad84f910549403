import TemporalStore.Lib.Result
import TemporalStore.Lib.Text

/-! # The RESP protocol (`redis/redis_protocol.rs`) -/

namespace TemporalStore.Redis

open Lib List

inductive RespValue where
  | simpleString (value : Bytes)
  | error (value : Bytes)
  | integer (value : ℤ)
  | bulk (value : Option Bytes)
  | array (values : List RespValue)

def crlf : Bytes := [13, 10]

def intBytes : ℤ → Bytes
  | .ofNat n => decimalBytes n
  | .negSucc n => 45 :: decimalBytes (n + 1)

mutual

def RespValue.encode : RespValue → Bytes
  | .simpleString value => 43 :: (value ++ crlf)
  | .error value => 45 :: (value ++ crlf)
  | .integer value => 58 :: (intBytes value ++ crlf)
  | .bulk (some value) => 36 :: (decimalBytes value.length ++ crlf ++ value ++ crlf)
  | .bulk none => [36, 45, 49, 13, 10]
  | .array values => 42 :: (decimalBytes values.length ++ crlf ++ encodeAll values)

def encodeAll : List RespValue → Bytes
  | [] => []
  | value :: values => value.encode ++ encodeAll values

end

inductive RespError where
  | unexpectedPrefix
  | badLength
  | badTerminator
  | unexpectedEof
  deriving DecidableEq

inductive Fault where
  | io (error : RespError)
  /-- A sum of sizes overflows, or no allocation may be as large as the one asked for. -/
  | overflow
  /-- The allocator refuses, and the process ends. -/
  | aborted
  deriving DecidableEq

/-- `isize::MAX`, the largest size of an allocation. -/
def isizeMax : ℕ := 2 ^ 63 - 1

/-- The size of a `Vec<u8>`. -/
def vecBytes : ℕ := 24

variable (granted : ℕ → Bool) (splitInline : Bytes → List Bytes) (bytes : Bytes)

/-- `granted` tells which sizes the allocator grants. -/
def allocate (size : ℕ) : Except Fault Unit :=
  if isizeMax < size then .error .overflow
  else if size = 0 ∨ granted size then .ok ()
  else .error .aborted

/-- The bytes through the next newline, or all of them, and what follows. -/
def readUntilNewline : Bytes × Bytes :=
  match takeLine bytes with
  | none => (bytes, [])
  | some line => (line, bytes.drop line.length)

def trimCrlf (line : Bytes) : Bytes := line.rdropWhile fun b => b == 10 || b == 13

def parsePrefixedNumber (line : Bytes) (prefixByte : Byte) : Except RespError ℕ :=
  if line.head? ≠ some prefixByte then .error .unexpectedPrefix
  else match parseUsize line.tail with
    | none => .error .badLength
    | some n => .ok n

def readArg : Except Fault (Bytes × Bytes) :=
  let (lenLine, rest) := readUntilNewline bytes
  match parsePrefixedNumber (trimCrlf lenLine) 36 with
  | .error error => .error (.io error)
  | .ok len => do
    allocate granted (len + 2)
    if rest.length < len + 2 then .error (.io .unexpectedEof)
    else if slice rest len 2 ≠ crlf then .error (.io .badTerminator)
    else .ok (rest.take len, rest.drop (len + 2))

def readArgs : ℕ → Bytes → Except Fault (List Bytes × Bytes)
  | 0, bytes => .ok ([], bytes)
  | count + 1, bytes => do
    let (arg, bytes) ← readArg granted bytes
    let (args, bytes) ← readArgs count bytes
    .ok (arg :: args, bytes)

/-- The next command and the bytes behind it, or `none` at the end of the stream. `splitInline`
splits a line at its white space. -/
def readCommand : Except Fault (Option (List Bytes) × Bytes) :=
  let (first, rest) := readUntilNewline bytes
  if first = [] then .ok (none, rest)
  else
    let line := trimCrlf first
    if line = [] then .ok (some [], rest)
    else if line.head? ≠ some 42 then .ok (some (splitInline line), rest)
    else match parsePrefixedNumber line 42 with
      | .error error => .error (.io error)
      | .ok count => do
        allocate granted (count * vecBytes)
        let (args, rest) ← readArgs granted count rest
        .ok (some args, rest)

/-- Every command up to the end of the stream, one a round. -/
def readCommands : ℕ → Bytes → Except Fault (List (List Bytes))
  | 0, _ => .ok []
  | rounds + 1, bytes => do
    match ← readCommand granted splitInline bytes with
    | (none, _) => .ok []
    | (some command, rest) =>
      let commands ← readCommands rounds rest
      .ok (command :: commands)

def encodeCommand (args : List Bytes) : Bytes :=
  (RespValue.array (args.map fun arg => .bulk (some arg))).encode

lemma readUntilNewline_append {line : Bytes} (h : newline ∉ line) (rest : Bytes) :
    readUntilNewline (line ++ crlf ++ rest) = (line ++ crlf, rest) := by
  have hline : newline ∉ line ++ [13] := by
    rw [mem_append, not_or]
    exact ⟨h, by decide⟩
  have hsplit : line ++ crlf ++ rest = (line ++ [13]) ++ newline :: rest := by
    simp [crlf, newline]
  have htake : takeLine (line ++ crlf ++ rest) = some (line ++ crlf) := by
    rw [hsplit, takeLine_append rest hline]
    simp [crlf, newline]
  rw [readUntilNewline, htake]
  dsimp only
  rw [drop_left]

lemma trimCrlf_decimal (first : Byte) (n : ℕ) :
    trimCrlf (first :: (decimalBytes n ++ crlf)) = first :: decimalBytes n := by
  obtain ⟨before, last, hlast⟩ := (eq_nil_or_concat (decimalBytes n)).resolve_left
    (decimalBytes_ne_nil n)
  rw [concat_eq_append] at hlast
  have hdigit := mem_decimalBytes (hlast ▸ mem_append_right before mem_cons_self)
  have hne : ¬(last == 10 || last == 13) = true := by
    rw [Bool.or_eq_true, beq_iff_eq, beq_iff_eq]
    rintro (rfl | rfl)
    · exact absurd hdigit.1 (by decide)
    · exact absurd hdigit.1 (by decide)
  have hsplit :
      first :: (decimalBytes n ++ crlf) = (first :: before ++ [last]) ++ [13] ++ [10] := by
    simp [hlast, crlf]
  rw [trimCrlf, hsplit, rdropWhile_concat_pos _ _ _ (by decide),
    rdropWhile_concat_pos _ _ _ (by decide),
    rdropWhile_concat_neg (fun b : Byte => b == 10 || b == 13) _ _ hne, hlast, cons_append]

lemma parsePrefixedNumber_decimal (first : Byte) {n : ℕ} (h : n < 2 ^ 64) :
    parsePrefixedNumber (first :: decimalBytes n) first = .ok n := by
  rw [parsePrefixedNumber, if_neg (by simp), tail_cons, parseUsize_decimalBytes h]

lemma newline_notMem_decimal (first : Byte) (hfirst : first ≠ newline) (n : ℕ) :
    newline ∉ first :: decimalBytes n := by
  rw [mem_cons, not_or]
  refine ⟨Ne.symm hfirst, fun h => ?_⟩
  exact absurd (mem_decimalBytes h).1 (by decide)

/-- An allocation of `size` bytes is possible and granted. -/
def Fits (size : ℕ) : Prop := size ≤ isizeMax ∧ (size = 0 ∨ granted size)

lemma allocate_of_fits {granted : ℕ → Bool} {size : ℕ} (h : Fits granted size) :
    allocate granted size = .ok () := by
  rw [allocate, if_neg (Nat.not_lt.mpr h.1), if_pos h.2]

/-- A command of a client. There is room for its arguments, each with its line end. -/
structure Command where
  args : List Bytes
  room : Fits granted (args.length * vecBytes)
  lengths : ∀ arg ∈ args, Fits granted (arg.length + 2)

section ReadBack

variable {granted}

lemma readArg_bulk {arg : Bytes} (h : Fits granted (arg.length + 2)) (rest : Bytes) :
    readArg granted ((RespValue.bulk (some arg)).encode ++ rest) = .ok (arg, rest) := by
  have hlines : (RespValue.bulk (some arg)).encode ++ rest =
      36 :: decimalBytes arg.length ++ crlf ++ (arg ++ (crlf ++ rest)) := by
    simp only [RespValue.encode, cons_append, append_assoc]
  have hline := readUntilNewline_append (newline_notMem_decimal 36 (by decide) arg.length)
    (arg ++ (crlf ++ rest))
  have hlen : arg.length < 2 ^ 64 := by
    have hsize := h.1
    unfold isizeMax at hsize
    omega
  have hend : (arg ++ (crlf ++ rest)).length = arg.length + 2 + rest.length := by
    simp only [length_append, crlf, length_cons, length_nil]
    omega
  have hslice : slice (arg ++ (crlf ++ rest)) arg.length 2 = crlf := slice_at_length arg crlf rest
  have hdrop : (arg ++ (crlf ++ rest)).drop (arg.length + 2) = rest := by
    rw [drop_length_add_append]
    exact drop_left' rfl
  rw [hlines, readArg, hline]
  dsimp only
  rw [cons_append, trimCrlf_decimal, parsePrefixedNumber_decimal 36 hlen]
  dsimp only
  rw [allocate_of_fits h, ok_bind, if_neg (by omega), if_neg (not_not.mpr hslice), take_left, hdrop]

lemma readArgs_bulks {args : List Bytes} (h : ∀ arg ∈ args, Fits granted (arg.length + 2))
    (rest : Bytes) :
    readArgs granted args.length (encodeAll (args.map fun arg => .bulk (some arg)) ++ rest) =
      .ok (args, rest) := by
  induction args with
  | nil => rfl
  | cons arg args ih =>
    rw [length_cons, map_cons, encodeAll, append_assoc, readArgs,
      readArg_bulk (h arg mem_cons_self), ok_bind]
    dsimp only
    rw [ih fun other hother => h other (mem_cons_of_mem _ hother), ok_bind]

lemma readCommand_encode (command : Command granted) (rest : Bytes) :
    readCommand granted splitInline (encodeCommand command.args ++ rest) =
      .ok (some command.args, rest) := by
  obtain ⟨args, hroom, hlens⟩ := command
  have hlines : encodeCommand args ++ rest = 42 :: decimalBytes args.length ++ crlf ++
      (encodeAll (args.map fun arg => .bulk (some arg)) ++ rest) := by
    simp only [encodeCommand, RespValue.encode, cons_append, append_assoc, length_map]
  have hline := readUntilNewline_append (newline_notMem_decimal 42 (by decide) args.length)
    (encodeAll (args.map fun arg => .bulk (some arg)) ++ rest)
  have hcount : args.length < 2 ^ 64 := by
    have hsize := hroom.1
    unfold vecBytes isizeMax at hsize
    omega
  rw [hlines, readCommand, hline]
  dsimp only
  rw [if_neg (by simp), cons_append, trimCrlf_decimal, if_neg (by simp), if_neg (by simp),
    parsePrefixedNumber_decimal 42 hcount]
  dsimp only
  rw [allocate_of_fits hroom, ok_bind, readArgs_bulks hlens, ok_bind]

lemma readCommands_stream (commands : List (Command granted)) :
    readCommands granted splitInline (commands.length + 1)
        (commands.flatMap fun command => encodeCommand command.args) =
      .ok (commands.map Command.args) := by
  induction commands with
  | nil => rfl
  | cons command commands ih =>
    rw [length_cons, flatMap_cons, readCommands, readCommand_encode, ok_bind]
    dsimp only
    rw [ih, ok_bind, map_cons]

end ReadBack

/-- The length that the next argument declares, and what follows the line. -/
def declaredLength : Except RespError ℕ :=
  parsePrefixedNumber (trimCrlf (readUntilNewline bytes).1) 36

/-- Of `count` arguments, one declares a length that there is no memory for, and those before it are
there with their line ends. -/
def OversizedArg : ℕ → Bytes → Prop
  | 0, _ => False
  | count + 1, bytes => ∃ len, declaredLength bytes = .ok len ∧
    (¬Fits granted (len + 2) ∨ slice (readUntilNewline bytes).2 len 2 = crlf ∧
      OversizedArg count ((readUntilNewline bytes).2.drop (len + 2)))

/-- The stream starts with an array that declares more arguments than there is memory for, or too
long a one. -/
def Oversized : Prop :=
  ∃ count, parsePrefixedNumber (trimCrlf (readUntilNewline bytes).1) 42 = .ok count ∧
    (¬Fits granted (count * vecBytes) ∨ OversizedArg granted count (readUntilNewline bytes).2)

/-- A panic or the end of the process. -/
def Crashes {α : Type} (result : Except Fault α) : Prop :=
  result = .error .overflow ∨ result = .error .aborted

section Crashes

variable {α β : Type}

lemma not_crashes_ok (a : α) : ¬Crashes (.ok a : Except Fault α) := by
  simp [Crashes]

lemma not_crashes_io (error : RespError) : ¬Crashes (.error (.io error) : Except Fault α) := by
  simp [Crashes]

lemma crashes_bind_ok (result : Except Fault α) (f : α → β) :
    Crashes (result >>= fun a => .ok (f a)) ↔ Crashes result := by
  cases result with
  | ok a => exact iff_of_false (not_crashes_ok (f a)) (not_crashes_ok a)
  | error fault => simp [Crashes, error_bind]

lemma crashes_allocate_bind (size : ℕ) (next : Unit → Except Fault α) :
    Crashes (allocate granted size >>= next) ↔ ¬Fits granted size ∨ Crashes (next ()) := by
  by_cases hfits : Fits granted size
  · rw [allocate_of_fits hfits, ok_bind, or_iff_right (not_not.mpr hfits)]
  · refine iff_of_true ?_ (.inl hfits)
    rw [allocate]
    split_ifs with hmax hgranted
    · exact .inl rfl
    · exact absurd ⟨Nat.not_lt.mp hmax, hgranted⟩ hfits
    · exact .inr rfl

end Crashes

lemma crashes_readArgs_iff (count : ℕ) (bytes : Bytes) :
    Crashes (readArgs granted count bytes) ↔ OversizedArg granted count bytes := by
  induction count generalizing bytes with
  | zero => exact iff_of_false (not_crashes_ok _) id
  | succ count ih =>
    rw [readArgs, OversizedArg, readArg]
    dsimp only
    rw [← declaredLength]
    cases declaredLength bytes with
    | error error => exact iff_of_false (not_crashes_io error) fun ⟨_, h, _⟩ => nomatch h
    | ok len =>
      simp only [Except.ok.injEq, exists_eq_left', bind_assoc]
      rw [crashes_allocate_bind]
      refine or_congr_right ?_
      by_cases hshort : (readUntilNewline bytes).2.length < len + 2
      · -- no line end is there
        have hterm : slice (readUntilNewline bytes).2 len 2 ≠ crlf := by
          intro hterm
          have hleng := congrArg length hterm
          rw [slice, length_take, length_drop] at hleng
          simp only [crlf, length_cons, length_nil] at hleng
          omega
        rw [if_pos hshort]
        exact iff_of_false (not_crashes_io _) fun h => hterm h.1
      rw [if_neg hshort]
      by_cases hterm : slice (readUntilNewline bytes).2 len 2 = crlf
      · rw [if_neg (not_not.mpr hterm), ok_bind, and_iff_right hterm, ← ih]
        exact crashes_bind_ok _ _
      · rw [if_pos hterm]
        exact iff_of_false (not_crashes_io _) fun h => hterm h.1

lemma crashes_readCommand_iff :
    Crashes (readCommand granted splitInline bytes) ↔ Oversized granted bytes := by
  unfold readCommand Oversized
  dsimp only
  -- a line that is not an array declares no count
  have hprefix : ∀ line : Bytes, line.head? ≠ some 42 →
      parsePrefixedNumber line 42 = .error .unexpectedPrefix := fun line h => if_pos h
  by_cases hfirst : (readUntilNewline bytes).1 = []
  · rw [hfirst]
    exact iff_of_false (not_crashes_ok _) fun ⟨count, h, _⟩ => nomatch h
  rw [if_neg hfirst]
  by_cases hline : trimCrlf (readUntilNewline bytes).1 = []
  · rw [hline]
    exact iff_of_false (not_crashes_ok _) fun ⟨count, h, _⟩ => nomatch h
  rw [if_neg hline]
  by_cases hstar : (trimCrlf (readUntilNewline bytes).1).head? = some 42
  · rw [if_neg (not_not.mpr hstar)]
    cases parsePrefixedNumber (trimCrlf (readUntilNewline bytes).1) 42 with
    | error error => exact iff_of_false (not_crashes_io _) fun ⟨count, h, _⟩ => nomatch h
    | ok count =>
      simp only [Except.ok.injEq, exists_eq_left']
      rw [crashes_allocate_bind, ← crashes_readArgs_iff]
      exact or_congr_right (crashes_bind_ok _ _)
  · rw [if_pos hstar, hprefix _ hstar]
    exact iff_of_false (not_crashes_ok _) fun ⟨count, h, _⟩ => nomatch h

/-- What clients send is read command by command. On any stream the reader answers with a command,
the end of the stream or an error if and only if there is memory for every size that the stream
declares, as far as it is read. -/
theorem readCommand_total (granted : ℕ → Bool) (splitInline : Bytes → List Bytes) :
    (∀ commands : List (Command granted), readCommands granted splitInline (commands.length + 1)
        (commands.flatMap fun command => encodeCommand command.args) =
      .ok (commands.map Command.args)) ∧
    ∀ bytes, ((∃ answer, readCommand granted splitInline bytes = .ok answer) ∨
        ∃ error, readCommand granted splitInline bytes = .error (.io error)) ↔
      ¬Oversized granted bytes := by
  refine ⟨readCommands_stream splitInline, fun bytes => ?_⟩
  rw [← crashes_readCommand_iff granted splitInline]
  cases readCommand granted splitInline bytes with
  | ok answer => exact iff_of_true (.inl ⟨answer, rfl⟩) (not_crashes_ok _)
  | error fault =>
    cases fault with
    | io error => exact iff_of_true (.inr ⟨error, rfl⟩) (not_crashes_io _)
    | overflow => exact iff_of_false (by simp) fun h => h (.inl rfl)
    | aborted => exact iff_of_false (by simp) fun h => h (.inr rfl)

/-- An argument of `isize::MAX` bytes, the largest count of arguments, and an argument of 10^15
bytes on a machine that grants a tebibyte. -/
theorem not_readCommand_total :
    let read := readCommand (fun size => size ≤ 2 ^ 40) fun line => [line]
    read ([42, 49, 13, 10, 36] ++ decimalBytes (2 ^ 63 - 1) ++ crlf) = .error .overflow ∧
      read (42 :: decimalBytes (2 ^ 64 - 1) ++ crlf) = .error .overflow ∧
      read ([42, 49, 13, 10, 36] ++ decimalBytes (10 ^ 15) ++ crlf) = .error .aborted := by
  decide +kernel

end TemporalStore.Redis
