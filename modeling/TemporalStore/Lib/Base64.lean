import TemporalStore.Lib.Bytes

namespace Lib.Base64

open List

/-- The letters `A` to `Z`, `a` to `z`, `0` to `9`, `+` and `/`. -/
def letter (d : ℕ) : Byte :=
  if d < 26 then UInt8.ofNat (65 + d)
  else if d < 52 then UInt8.ofNat (71 + d)
  else if d < 62 then UInt8.ofNat (d - 4)
  else if d = 62 then 43 else 47

def digit (b : Byte) : Option ℕ :=
  if 65 ≤ b.toNat ∧ b.toNat ≤ 90 then some (b.toNat - 65)
  else if 97 ≤ b.toNat ∧ b.toNat ≤ 122 then some (b.toNat - 71)
  else if 48 ≤ b.toNat ∧ b.toNat ≤ 57 then some (b.toNat + 4)
  else if b = 43 then some 62
  else if b = 47 then some 63
  else none

def pad : Byte := 61

def encode : Bytes → Bytes
  | [] => []
  | [a] => [letter (a.toNat / 4), letter (a.toNat % 4 * 16), pad, pad]
  | [a, b] => [letter (a.toNat / 4), letter (a.toNat % 4 * 16 + b.toNat / 16),
      letter (b.toNat % 16 * 4), pad]
  | a :: b :: c :: rest =>
    letter (a.toNat / 4) :: letter (a.toNat % 4 * 16 + b.toNat / 16) ::
      letter (b.toNat % 16 * 4 + c.toNat / 64) :: letter (c.toNat % 64) :: encode rest

/-- A last group that ends in padding. The bits that no byte takes must be zero. -/
def decodeLast (w x y : Byte) : Option Bytes := do
  let w ← digit w
  let x ← digit x
  if y = pad then
    if x % 16 = 0 then some [UInt8.ofNat (w * 4 + x / 16)] else none
  else
    let y ← digit y
    if y % 4 = 0 then some [UInt8.ofNat (w * 4 + x / 16), UInt8.ofNat (x % 16 * 16 + y / 4)]
    else none

def decode : Bytes → Option Bytes
  | [] => some []
  | w :: x :: y :: z :: rest =>
    if z = pad ∧ rest = [] then decodeLast w x y
    else do
      let w ← digit w
      let x ← digit x
      let y ← digit y
      let z ← digit z
      let rest ← decode rest
      some (UInt8.ofNat (w * 4 + x / 16) :: UInt8.ofNat (x % 16 * 16 + y / 4) ::
        UInt8.ofNat (y % 4 * 64 + z) :: rest)
  | _ => none

lemma digit_letter {d : ℕ} (h : d < 64) : digit (letter d) = some d := by
  revert d
  decide

lemma letter_ne_pad {d : ℕ} (h : d < 64) : letter d ≠ pad := by
  intro heq
  have hd := digit_letter h
  rw [heq] at hd
  cases hd

lemma letter_bounds (d : ℕ) : 43 ≤ (letter d).toNat ∧ (letter d).toNat < 128 := by
  unfold letter
  split_ifs
  · rw [UInt8.toNat_ofNat']
    omega
  · rw [UInt8.toNat_ofNat']
    omega
  · rw [UInt8.toNat_ofNat']
    omega
  · decide
  · decide

lemma mem_encode {bytes : Bytes} {b : Byte} (h : b ∈ encode bytes) :
    43 ≤ b.toNat ∧ b.toNat < 128 := by
  have hpad : 43 ≤ pad.toNat ∧ pad.toNat < 128 := by decide
  fun_induction encode bytes with
  | case1 => cases h
  | case2 | case3 =>
    simp only [mem_cons, not_mem_nil, or_false] at h
    rcases h with rfl | rfl | rfl | rfl <;> first | exact letter_bounds _ | exact hpad
  | case4 a c d rest ih =>
    simp only [mem_cons] at h
    rcases h with rfl | rfl | rfl | rfl | h
    · exact letter_bounds _
    · exact letter_bounds _
    · exact letter_bounds _
    · exact letter_bounds _
    · exact ih h

lemma ofNat_split (a : Byte) {hi lo m : ℕ} (hhi : hi = a.toNat / m) (hlo : lo = a.toNat % m) :
    UInt8.ofNat (hi * m + lo) = a := by
  rw [hhi, hlo, Nat.div_add_mod', UInt8.ofNat_toNat]

lemma decode_encode (bytes : Bytes) : decode (encode bytes) = some bytes := by
  fun_induction encode bytes with
  | case1 => rfl
  | case2 a =>
    have ha := a.toNat_lt
    rw [decode, if_pos ⟨rfl, rfl⟩, decodeLast, digit_letter (by omega), digit_letter (by omega)]
    simp only [Option.bind_eq_bind, Option.bind_some, if_true]
    rw [if_pos (by omega), ofNat_split a rfl (by omega)]
  | case3 a b =>
    have ha := a.toNat_lt
    have hb := b.toNat_lt
    rw [decode, if_pos ⟨rfl, rfl⟩, decodeLast, digit_letter (by omega), digit_letter (by omega),
      digit_letter (by omega)]
    simp only [Option.bind_eq_bind, Option.bind_some]
    rw [if_neg (letter_ne_pad (by omega)), if_pos (by omega), ofNat_split a rfl (by omega),
      ofNat_split b (by omega) (by omega)]
  | case4 a b c rest ih =>
    have ha := a.toNat_lt
    have hb := b.toNat_lt
    have hc := c.toNat_lt
    have hz : ¬(letter (c.toNat % 64) = pad ∧ encode rest = []) :=
      fun h => letter_ne_pad (by omega) h.1
    rw [decode, if_neg hz, digit_letter (by omega), digit_letter (by omega),
      digit_letter (by omega), digit_letter (by omega), ih]
    simp only [Option.bind_eq_bind, Option.bind_some]
    rw [ofNat_split a rfl (by omega), ofNat_split b (by omega) (by omega),
      ofNat_split c (by omega) rfl]

end Lib.Base64
