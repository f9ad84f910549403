import Mathlib.Data.List.Basic
import Mathlib.Tactic.Ring

namespace Lib

open List

abbrev Byte := UInt8

abbrev Bytes := List Byte

variable (w : ℕ) (a file : Bytes) (pos n : ℕ)

/-- A run of `n` zero bytes, such as a preallocated reservation. -/
def zeros : Bytes := replicate n 0

@[simp] lemma zeros_length : (zeros n).length = n := by simp [zeros]

@[simp] lemma zeros_zero : zeros 0 = [] := rfl

lemma zeros_succ : zeros (n + 1) = 0 :: zeros n := rfl

lemma zeros_add (m n : ℕ) : zeros (m + n) = zeros m ++ zeros n :=
  replicate_add m n 0

lemma mem_zeros {n : ℕ} {b : Byte} (h : b ∈ zeros n) : b = 0 :=
  eq_of_mem_replicate h

lemma take_zeros (m n : ℕ) : (zeros n).take m = zeros (min m n) := by
  simp [zeros, take_replicate]

lemma drop_zeros (m n : ℕ) : (zeros n).drop m = zeros (n - m) := by
  simp [zeros, drop_replicate]

/-- At most `n` bytes of `file` from position `pos` on. -/
def slice : Bytes := (file.drop pos).take n

lemma slice_length {file : Bytes} {pos n : ℕ} (h : pos + n ≤ file.length) :
    (slice file pos n).length = n := by
  simp only [slice, length_take, length_drop]
  omega

lemma slice_append_left {a b : Bytes} {pos n : ℕ} (h : pos + n ≤ a.length) :
    slice (a ++ b) pos n = slice a pos n := by
  simp only [slice]
  rw [drop_append_of_le_length (by omega), take_append_of_le_length]
  simp only [length_drop]
  omega

lemma slice_append_right (b : Bytes) (pos n : ℕ) :
    slice (a ++ b) (a.length + pos) n = slice b pos n := by
  rw [slice, drop_length_add_append, slice]

@[simp] lemma slice_at_length (b c : Bytes) : slice (a ++ (b ++ c)) a.length b.length = b := by
  simp [slice]

lemma slice_eq_of_append {file a b c : Bytes} {pos n : ℕ} (hfile : file = a ++ (b ++ c))
    (hpos : a.length = pos) (hn : b.length = n) : slice file pos n = b := by
  rw [hfile, ← hpos, ← hn, slice_at_length]

lemma slice_slice {pos n start m : ℕ} (h : start + m ≤ n) :
    slice (slice file pos n) start m = slice file (pos + start) m := by
  rw [slice, slice, slice, drop_take, drop_drop, take_take, min_eq_left (by omega)]

lemma slice_congr {a b : Bytes} {stop pos n : ℕ} (h : a.take stop = b.take stop)
    (hle : pos + n ≤ stop) : slice a pos n = slice b pos n := by
  have hslice (file : Bytes) : slice file pos n = slice (file.take stop) pos n := by
    rw [slice, slice, drop_take, take_take, min_eq_left (by omega)]
  rw [hslice a, hslice b, h]

lemma getElem?_congr {a b : Bytes} {stop pos : ℕ} (h : a.take stop = b.take stop)
    (hlt : pos < stop) : a[pos]? = b[pos]? := by
  rw [← getElem?_take_of_lt hlt, h, getElem?_take_of_lt hlt]

/-- Where the first nonzero byte behind `pos` lies in the common part, both files have it there. -/
lemma findIdx_congr {a b : Bytes} {stop pos : ℕ} (h : a.take stop = b.take stop)
    (hlt : pos + (a.drop pos).findIdx (· ≠ 0) < stop) :
    (b.drop pos).findIdx (· ≠ 0) = (a.drop pos).findIdx (· ≠ 0) := by
  have hmin (file : Bytes) : ((file.take stop).drop pos).findIdx (· ≠ 0) =
      min (stop - pos) ((file.drop pos).findIdx (· ≠ 0)) := by
    rw [drop_take, findIdx_take]
  have ha := hmin a
  rw [h, hmin b] at ha
  omega

lemma slice_zeros (k : ℕ) : slice (zeros k) pos n = zeros (min n (k - pos)) := by
  rw [slice, drop_zeros, take_zeros]

lemma slice_append_zeros (k : ℕ) : slice (a ++ zeros k) pos n =
      slice a pos n ++ zeros (min (n - (a.length - pos)) (k - (pos - a.length))) := by
  simp only [slice, drop_append, take_append, length_drop, drop_zeros, take_zeros]

lemma findIdx_zeros_append {b : Byte} (rest : Bytes) (h : b ≠ 0) :
    (zeros n ++ b :: rest).findIdx (· ≠ 0) = n := by
  induction n with
  | zero => simp [findIdx_cons, h]
  | succ n ih =>
    rw [zeros_succ, cons_append, findIdx_cons, ih]
    simp

lemma findIdx_zeros : (zeros n).findIdx (· ≠ 0) = n := by
  induction n with
  | zero => rfl
  | succ n ih =>
    rw [zeros_succ, findIdx_cons, ih]
    simp

/-- Write `data` at `pos`; a write past the end leaves zeros in between. -/
def writeAt (data : Bytes) : Bytes :=
  (file ++ zeros (pos - file.length)).take pos ++ data ++ file.drop (pos + data.length)

/-- `ftruncate`: cut the file to `n` bytes, or extend it with zeros. -/
def setLen : Bytes := (file ++ zeros (n - file.length)).take n

/-- Writing into the zeros behind the data keeps the data and eats the zeros written over. -/
lemma writeAt_zeros (data : Bytes) (j k : ℕ) : writeAt (a ++ zeros k) (a.length + j) data =
      a ++ zeros j ++ data ++ zeros (k - (j + data.length)) := by
  have htake : (a ++ zeros k ++ zeros (a.length + j - (a ++ zeros k).length)).take (a.length + j)
      = a ++ zeros j := by
    rw [append_assoc, ← zeros_add, take_length_add_append, take_zeros]
    congr 2
    simp only [length_append, zeros_length]
    omega
  have hdrop : (a ++ zeros k).drop (a.length + j + data.length)
      = zeros (k - (j + data.length)) := by
    rw [Nat.add_assoc, drop_length_add_append, drop_zeros]
  rw [writeAt, htake, hdrop]

lemma setLen_zeros {k n : ℕ} (h : a.length ≤ n) :
    setLen (a ++ zeros k) n = a ++ zeros (n - a.length) := by
  obtain ⟨m, rfl⟩ := Nat.exists_eq_add_of_le h
  rw [setLen, append_assoc, ← zeros_add, take_length_add_append, take_zeros]
  congr 2
  simp only [length_append, zeros_length]
  omega

/-- The low `w` bytes of `n`, least significant first. -/
def leBytes : ℕ → ℕ → Bytes
  | 0, _ => []
  | w + 1, n => UInt8.ofNat (n % 256) :: leBytes w (n / 256)

def leNat : Bytes → ℕ
  | [] => 0
  | b :: bs => b.toNat + 256 * leNat bs

@[simp] lemma leBytes_length : (leBytes w n).length = w := by
  induction w generalizing n with
  | zero => rfl
  | succ w ih => simp [leBytes, ih]

lemma leNat_leBytes {w n : ℕ} (h : n < 256 ^ w) : leNat (leBytes w n) = n := by
  induction w generalizing n with
  | zero => simp only [pow_zero, Nat.lt_one_iff] at h; simp [leBytes, leNat, h]
  | succ w ih =>
    have hdiv : n / 256 < 256 ^ w := by
      rw [Nat.div_lt_iff_lt_mul (by decide)]
      simpa [pow_succ] using h
    have hbyte : (UInt8.ofNat (n % 256)).toNat = n % 256 := by
      rw [UInt8.toNat_ofNat']
      omega
    rw [leBytes, leNat, ih hdiv]
    omega

lemma leNat_lt (bytes : Bytes) : leNat bytes < 256 ^ bytes.length := by
  induction bytes with
  | nil => exact Nat.one_pos
  | cons b bytes ih =>
    have := b.toNat_lt
    rw [leNat, length_cons]
    omega

lemma leBytes_leNat (bytes : Bytes) : leBytes bytes.length (leNat bytes) = bytes := by
  induction bytes with
  | nil => rfl
  | cons b bytes ih =>
    have hb := b.toNat_lt
    have hmod : (b.toNat + 256 * leNat bytes) % 256 = b.toNat := by omega
    have hdiv : (b.toNat + 256 * leNat bytes) / 256 = leNat bytes := by omega
    rw [leNat, length_cons, leBytes, hmod, hdiv, ih, UInt8.ofNat_toNat]

lemma leBytes_concat : leBytes (w + 1) n = leBytes w n ++ [UInt8.ofNat (n / 256 ^ w % 256)] := by
  induction w generalizing n with
  | zero => simp [leBytes]
  | succ w ih =>
    rw [leBytes, ih, leBytes, Nat.div_div_eq_div_mul, ← pow_succ', cons_append]

/-- The low `w` bytes of `n`, most significant first. -/
def beBytes : Bytes := (leBytes w n).reverse

def beNat (bytes : Bytes) : ℕ := leNat bytes.reverse

@[simp] lemma beBytes_length : (beBytes w n).length = w := by
  rw [beBytes, length_reverse, leBytes_length]

lemma beNat_beBytes {w n : ℕ} (h : n < 256 ^ w) : beNat (beBytes w n) = n := by
  rw [beNat, beBytes, reverse_reverse, leNat_leBytes h]

lemma beBytes_beNat (bytes : Bytes) : beBytes bytes.length (beNat bytes) = bytes := by
  rw [beBytes, beNat, ← length_reverse, leBytes_leNat, reverse_reverse]

lemma beBytes_succ : beBytes (w + 1) n = UInt8.ofNat (n / 256 ^ w % 256) :: beBytes w n := by
  rw [beBytes, leBytes_concat, reverse_append]
  rfl

end Lib
