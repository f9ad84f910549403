import TemporalStore.Lib.Bytes

namespace Lib

open List Nat

/-- The groups of `value`, in at most `fuel` bytes. -/
def writeVarintWithin : ℕ → ℕ → Bytes
  | 0, _ => []
  | fuel + 1, value =>
    if value / 128 = 0 then [UInt8.ofNat (value % 128)]
    else UInt8.ofNat (value % 128 + 128) :: writeVarintWithin fuel (value / 128)

variable (value fuel shift acc : ℕ)

def writeVarint : Bytes := writeVarintWithin 10 value

/-- What reading a varint off the front of a byte string finds. -/
inductive VarintRead where
  | value (n : ℕ) (rest : Bytes)
  /-- The bytes ended inside the varint. -/
  | short
  /-- Ten bytes with the continuation bit set. -/
  | overlong
  deriving DecidableEq

def readVarintFrom : ℕ → ℕ → ℕ → Bytes → VarintRead
  | 0, _, _, _ => .overlong
  | _ + 1, _, _, [] => .short
  | fuel + 1, shift, acc, b :: bs =>
    if b.toNat < 128 then .value (acc + b.toNat % 128 * 2 ^ shift) bs
    else readVarintFrom fuel (shift + 7) (acc + b.toNat % 128 * 2 ^ shift) bs

/-- Reads one varint. The value is not reduced: ten bytes carry up to seventy bits. -/
def readVarint (bytes : Bytes) : VarintRead := readVarintFrom 10 0 0 bytes

lemma writeVarintWithin_ne_nil (value : ℕ) : writeVarintWithin (fuel + 1) value ≠ [] := by
  rw [writeVarintWithin]
  split <;> simp

lemma writeVarintWithin_length_le (value : ℕ) : (writeVarintWithin fuel value).length ≤ fuel := by
  induction fuel generalizing value with
  | zero => simp [writeVarintWithin]
  | succ fuel ih =>
    rw [writeVarintWithin]
    split
    · simp
    · simpa using ih (value / 128)

lemma writeVarint_length_le : (writeVarint value).length ≤ 10 :=
  writeVarintWithin_length_le 10 value

lemma writeVarint_length_pos : 0 < (writeVarint value).length :=
  length_pos_iff.mpr (writeVarintWithin_ne_nil 9 value)

lemma writeVarint_length_of_lt {value : ℕ} (h : value < 128) : (writeVarint value).length = 1 := by
  rw [writeVarint, writeVarintWithin, if_pos (by omega)]
  rfl

lemma readVarintFrom_last {b : Byte} (rest : Bytes) (h : b.toNat < 128) :
    readVarintFrom (fuel + 1) shift acc (b :: rest) = .value (acc + b.toNat * 2 ^ shift) rest := by
  rw [readVarintFrom, if_pos h, mod_eq_of_lt h]

lemma readVarintFrom_continued (rest : Bytes) :
    readVarintFrom (fuel + 1) shift acc (UInt8.ofNat (value % 128 + 128) :: rest) =
      readVarintFrom fuel (shift + 7) (acc + value % 128 * 2 ^ shift) rest := by
  have hnat : (UInt8.ofNat (value % 128 + 128)).toNat = value % 128 + 128 := by
    rw [UInt8.toNat_ofNat']
    omega
  rw [readVarintFrom, hnat, if_neg (by omega), add_mod_right, mod_mod]

lemma readVarintFrom_of_lt {value : ℕ} (rest : Bytes) (h : value / 128 = 0) :
    readVarintFrom (fuel + 1) shift acc (writeVarintWithin (fuel + 1) value ++ rest) =
      .value (acc + value * 2 ^ shift) rest := by
  have hb : (UInt8.ofNat (value % 128)).toNat = value := by
    rw [UInt8.toNat_ofNat']
    omega
  rw [writeVarintWithin, if_pos h, singleton_append, readVarintFrom_last _ _ _ _ (by omega), hb]

lemma readVarintFrom_writeVarintWithin {value : ℕ} (rest : Bytes) (h : value < 128 ^ (fuel + 1)) :
    readVarintFrom (fuel + 1) shift acc (writeVarintWithin (fuel + 1) value ++ rest) =
      .value (acc + value * 2 ^ shift) rest := by
  induction fuel generalizing value shift acc with
  | zero => exact readVarintFrom_of_lt 0 shift acc rest (by omega)
  | succ fuel ih =>
    by_cases hlast : value / 128 = 0
    · exact readVarintFrom_of_lt _ shift acc rest hlast
    · have hdiv : value / 128 < 128 ^ (fuel + 1) := by
        rw [div_lt_iff_lt_mul (by decide)]
        exact h
      rw [writeVarintWithin, if_neg hlast, cons_append, readVarintFrom_continued, ih _ _ hdiv]
      congr 1
      calc acc + value % 128 * 2 ^ shift + value / 128 * 2 ^ (shift + 7)
          = acc + (128 * (value / 128) + value % 128) * 2 ^ shift := by rw [pow_add]; ring
        _ = acc + value * 2 ^ shift := by rw [div_add_mod value 128]

lemma readVarint_writeVarint {value : ℕ} (rest : Bytes) (h : value < 2 ^ 64) :
    readVarint (writeVarint value ++ rest) = .value value rest := by
  have h70 : value < 128 ^ 10 := lt_of_lt_of_le h (by decide)
  simpa [readVarint, writeVarint] using readVarintFrom_writeVarintWithin 9 0 0 rest h70

/-- A varint cut short in front of zeros: the first of them ends it, and the groups that were
written are its value. -/
lemma readVarintFrom_torn {value written : ℕ} (n : ℕ)
    (h : written < (writeVarintWithin fuel value).length) :
    readVarintFrom fuel shift acc ((writeVarintWithin fuel value).take written ++ zeros (n + 1)) =
      .value (acc + value % 128 ^ written * 2 ^ shift) (zeros n) := by
  induction fuel generalizing value written shift acc with
  | zero => simp [writeVarintWithin] at h
  | succ fuel ih =>
    cases written with
    | zero =>
      rw [take_zero, nil_append, zeros_succ, readVarintFrom_last _ _ _ _ (by decide)]
      simp [mod_one]
    | succ written =>
      rw [writeVarintWithin] at h ⊢
      by_cases hlast : value / 128 = 0
      · rw [if_pos hlast] at h
        simp at h
      · rw [if_neg hlast, length_cons] at h
        rw [if_neg hlast, take_succ_cons, cons_append, readVarintFrom_continued, ih _ _ (by omega)]
        congr 1
        calc acc + value % 128 * 2 ^ shift + value / 128 % 128 ^ written * 2 ^ (shift + 7)
            = acc + (value % 128 + 128 * (value / 128 % 128 ^ written)) * 2 ^ shift := by
              rw [pow_add]; ring
          _ = acc + value % 128 ^ (written + 1) * 2 ^ shift := by
              rw [pow_succ', mod_mul]

lemma readVarintFrom_short {value written : ℕ}
    (h : written < (writeVarintWithin fuel value).length) :
    readVarintFrom fuel shift acc ((writeVarintWithin fuel value).take written) = .short := by
  induction fuel generalizing value written shift acc with
  | zero => simp [writeVarintWithin] at h
  | succ fuel ih =>
    cases written with
    | zero => rfl
    | succ written =>
      rw [writeVarintWithin] at h ⊢
      by_cases hlast : value / 128 = 0
      · rw [if_pos hlast] at h
        simp at h
      · rw [if_neg hlast, length_cons] at h
        rw [if_neg hlast, take_succ_cons, readVarintFrom_continued, ih _ _ (by omega)]

lemma readVarintFrom_append {groups : Bytes} (hgroups : ∀ b ∈ groups, 128 ≤ b.toNat) {fuel : ℕ}
    (hfuel : groups.length ≤ fuel) (shift acc : ℕ) :
    ∃ shift' acc', ∀ rest, readVarintFrom fuel shift acc (groups ++ rest) =
      readVarintFrom (fuel - groups.length) shift' acc' rest := by
  induction groups generalizing fuel shift acc with
  | nil => exact ⟨shift, acc, fun rest => rfl⟩
  | cons b groups ih =>
    rw [length_cons] at hfuel
    obtain ⟨fuel, rfl⟩ : ∃ n, fuel = n + 1 := ⟨fuel - 1, by omega⟩
    have hb : ¬b.toNat < 128 := not_lt.mpr (hgroups b mem_cons_self)
    obtain ⟨shift', acc', h⟩ := ih (fun c hc => hgroups c (mem_cons_of_mem _ hc))
      (le_of_succ_le_succ hfuel) (shift + 7) (acc + b.toNat % 128 * 2 ^ shift)
    refine ⟨shift', acc', fun rest => ?_⟩
    rw [cons_append, readVarintFrom, if_neg hb, h rest, length_cons, succ_sub_succ]

lemma isSuffix_of_readVarintFrom {fuel shift acc n : ℕ} {bytes rest : Bytes}
    (h : readVarintFrom fuel shift acc bytes = .value n rest) : ∃ taken, bytes = taken ++ rest := by
  induction fuel generalizing shift acc bytes with
  | zero => simp [readVarintFrom] at h
  | succ fuel ih =>
    cases bytes with
    | nil => simp [readVarintFrom] at h
    | cons b bytes =>
      rw [readVarintFrom] at h
      split at h
      · cases h
        exact ⟨[b], rfl⟩
      · obtain ⟨taken, rfl⟩ := ih h
        exact ⟨b :: taken, rfl⟩

lemma readVarintFrom_extend {fuel shift acc n : ℕ} {bytes rest : Bytes}
    (h : readVarintFrom fuel shift acc bytes = .value n rest) (more : Bytes) :
    readVarintFrom fuel shift acc (bytes ++ more) = .value n (rest ++ more) := by
  induction fuel generalizing shift acc bytes with
  | zero => simp [readVarintFrom] at h
  | succ fuel ih =>
    cases bytes with
    | nil => simp [readVarintFrom] at h
    | cons b bytes =>
      rw [readVarintFrom] at h
      rw [cons_append, readVarintFrom]
      split at h
      · rw [if_pos ‹_›]
        cases h
        rfl
      · rw [if_neg ‹_›]
        exact ih h

end Lib
