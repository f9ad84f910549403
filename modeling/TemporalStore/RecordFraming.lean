import Mathlib.Data.Nat.Digits.Defs
import TemporalStore.Lib.Varint

/-! # The length of a framed record (`record_framing.rs`) -/

namespace TemporalStore.RecordFraming

open Lib List

/-- The loop of `decode_varint32`, from the byte at `index` on. -/
def decodeVarint32From (index value : ℕ) : Bytes → Except String (ℕ × ℕ)
  | [] => .error "varint is truncated or overlong"
  | byte :: rest =>
    if 32 ≤ 7 * index then .error "varint overflows 32 bits"
    else
      let value := value ||| (byte.toNat % 128) <<< (7 * index) % 2 ^ 32
      if byte.toNat < 128 then .ok (value, index + 1) else decodeVarint32From (index + 1) value rest

/-- The number and how many bytes it takes. -/
def decodeVarint32 (bytes : Bytes) : Except String (ℕ × ℕ) := decodeVarint32From 0 0 (bytes.take 5)

lemma decodeVarint32From_eq {fuel index acc : ℕ} {bytes : Bytes} (hacc : acc < 2 ^ (7 * index))
    (hindex : index + bytes.length ≤ 5) (hfuel : bytes.length ≤ fuel) :
    decodeVarint32From index (acc % 2 ^ 32) bytes =
      match readVarintFrom fuel (7 * index) acc bytes with
      | .value n rest => .ok (n % 2 ^ 32, index + (bytes.length - rest.length))
      | _ => .error "varint is truncated or overlong" := by
  induction bytes generalizing fuel index acc with
  | nil => cases fuel <;> rfl
  | cons b bytes ih =>
    rw [length_cons] at hindex hfuel
    obtain ⟨fuel, rfl⟩ := Nat.exists_eq_succ_of_ne_zero (show fuel ≠ 0 by omega)
    have hor : acc % 2 ^ 32 ||| (b.toNat % 128) <<< (7 * index) % 2 ^ 32 =
        (acc + b.toNat % 128 * 2 ^ (7 * index)) % 2 ^ 32 := by
      rw [← Nat.or_mod_two_pow, Nat.shiftLeft_eq, Nat.or_comm, Nat.mul_comm,
        ← Nat.two_pow_add_eq_or_of_lt hacc, Nat.add_comm]
    have hnext : acc + b.toNat % 128 * 2 ^ (7 * index) < 2 ^ (7 * (index + 1)) := by
      have hlt := Nat.mod_lt b.toNat (show 128 > 0 by decide)
      rw [Nat.mul_succ, pow_add]
      nlinarith
    rw [decodeVarint32From, if_neg (by omega), readVarintFrom]
    rw [hor]
    split_ifs
    · simp
    · rw [ih hnext (by omega) (Nat.le_of_succ_le_succ hfuel)]
      cases hread : readVarintFrom fuel (7 * index + 7) _ bytes with
      | value n rest =>
        obtain ⟨taken, rfl⟩ := isSuffix_of_readVarintFrom hread
        simp only [length_cons, length_append]
        congr 2
        omega
      | short => rfl
      | overlong => rfl

lemma decodeVarint32_eq (bytes : Bytes) :
    decodeVarint32 bytes = match readVarintFrom 5 0 0 (bytes.take 5) with
      | .value n rest => .ok (n % 2 ^ 32, (bytes.take 5).length - rest.length)
      | _ => .error "varint is truncated or overlong" := by
  have hlen := length_take_le 5 bytes
  simpa [decodeVarint32] using
    @decodeVarint32From_eq 5 0 0 (bytes.take 5) (by decide) (by omega) hlen

def base128 (bytes : Bytes) : ℕ := Nat.ofDigits 128 (bytes.map fun b => b.toNat % 128)

/-- A number of five bytes, the last of which has bits that do not fit. -/
def Overflows : Bytes → Prop
  | a :: b :: c :: d :: e :: _ => 128 ≤ a.toNat ∧ 128 ≤ b.toNat ∧ 128 ≤ c.toNat ∧ 128 ≤ d.toNat ∧
      16 ≤ e.toNat ∧ e.toNat < 128
  | _ => False

/-- What is accepted has its base-128 value, a number of 32 bits, unless the fifth byte has bits
that do not fit. -/
theorem decodeVarint32_exact_iff (bytes : Bytes) :
    (∀ value len, decodeVarint32 bytes = .ok (value, len) →
      value = base128 (bytes.take len) ∧ base128 (bytes.take len) < 2 ^ 32) ↔ ¬Overflows bytes := by
  rw [decodeVarint32_eq]
  rcases bytes with _ | ⟨a, _ | ⟨b, _ | ⟨c, _ | ⟨d, _ | ⟨e, rest⟩⟩⟩⟩⟩
  · simp [readVarintFrom, Overflows]
  all_goals
    simp only [take_succ_cons, take_nil, take_zero, readVarintFrom, Overflows]
    split_ifs <;> simp [base128, Nat.ofDigits_cons, *] <;> omega

theorem not_decodeVarint32_exact :
    ¬∀ value len, decodeVarint32 [255, 255, 255, 255, 127] = .ok (value, len) →
      value = base128 ([255, 255, 255, 255, 127].take len) ∧
        base128 ([255, 255, 255, 255, 127].take len) < 2 ^ 32 := by
  intro h
  exact absurd (h (2 ^ 32 - 1) 5 (by decide)) (by decide)

end TemporalStore.RecordFraming
