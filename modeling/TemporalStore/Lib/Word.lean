import Mathlib.Algebra.Group.Nat.Defs
import Mathlib.Order.Lattice
import Mathlib.Tactic.Common

namespace Lib

def u64Max : ℕ := 2 ^ 64 - 1

def saturatingAdd (m n : ℕ) : ℕ := min (m + n) u64Max

def saturatingSucc (n : ℕ) : ℕ := min (n + 1) u64Max

lemma saturatingSucc_le (n : ℕ) : saturatingSucc n ≤ u64Max := Nat.min_le_right _ _

lemma saturatingSucc_of_lt {n : ℕ} (h : n < u64Max) : saturatingSucc n = n + 1 := by
  simp only [saturatingSucc]
  omega

end Lib
