import Mathlib.Data.BitVec
import Mathlib.Tactic

/-!
# Saturating and checked arithmetic on machine words

Unsigned machine integers are `BitVec w`. This file gives the arithmetic that does
not wrap: `saturatingAdd`, `saturatingSub` and `saturatingMul` clamp at the ends of
the range, `checkedAdd` reports an overflow. Each operation has one `toNat` lemma,
which is all that later proofs use.

* `toNat_saturatingAdd_of_lt`, `toNat_saturatingMul_of_lt`: without overflow the
  clamped operation is the exact one.
-/

namespace Blq.Word

variable {w : ℕ}

/-- The largest word of width `w`. -/
def maxValue (w : ℕ) : BitVec w := BitVec.allOnes w

def saturatingAdd (a b : BitVec w) : BitVec w :=
  if a.toNat + b.toNat < 2 ^ w then a + b else maxValue w

def saturatingSub (a b : BitVec w) : BitVec w :=
  if b.toNat ≤ a.toNat then a - b else 0#w

def saturatingMul (a b : BitVec w) : BitVec w :=
  if a.toNat * b.toNat < 2 ^ w then a * b else maxValue w

def checkedAdd (a b : BitVec w) : Option (BitVec w) :=
  if a.toNat + b.toNat < 2 ^ w then some (a + b) else none

/-- The smaller of two words. -/
def minWord (a b : BitVec w) : BitVec w := if a.toNat ≤ b.toNat then a else b

/-- The larger of two words. -/
def maxWord (a b : BitVec w) : BitVec w := if a.toNat ≤ b.toNat then b else a

theorem ofNat_toNat (v : BitVec w) : BitVec.ofNat w v.toNat = v := by
  rw [BitVec.ofNat_toNat, BitVec.setWidth_eq]

theorem toNat_ofNat_of_lt {n : ℕ} (h : n < 2 ^ w) : (BitVec.ofNat w n).toNat = n := by
  rw [BitVec.toNat_ofNat, Nat.mod_eq_of_lt h]

@[simp] theorem toNat_maxValue : (maxValue w).toNat = 2 ^ w - 1 := by
  simp [maxValue]

theorem toNat_saturatingAdd (a b : BitVec w) :
    (saturatingAdd a b).toNat = min (a.toNat + b.toNat) (2 ^ w - 1) := by
  unfold saturatingAdd
  split
  · rw [BitVec.toNat_add, Nat.mod_eq_of_lt (by assumption)]
    omega
  · rw [toNat_maxValue]
    omega

@[simp] theorem toNat_saturatingSub (a b : BitVec w) :
    (saturatingSub a b).toNat = a.toNat - b.toNat := by
  unfold saturatingSub
  split
  · exact BitVec.toNat_sub_of_le (by rwa [BitVec.le_def])
  · simp only [BitVec.toNat_ofNat, Nat.zero_mod]
    omega

theorem toNat_saturatingMul (a b : BitVec w) :
    (saturatingMul a b).toNat = min (a.toNat * b.toNat) (2 ^ w - 1) := by
  unfold saturatingMul
  split
  · rw [BitVec.toNat_mul, Nat.mod_eq_of_lt (by assumption)]
    omega
  · rw [toNat_maxValue]
    omega

theorem toNat_saturatingAdd_one (a : BitVec 64) :
    (saturatingAdd a 1).toNat = min (a.toNat + 1) (2 ^ 64 - 1) := toNat_saturatingAdd a 1

theorem toNat_saturatingAdd_of_lt {a b : BitVec w} (h : a.toNat + b.toNat < 2 ^ w) :
    (saturatingAdd a b).toNat = a.toNat + b.toNat := by
  rw [toNat_saturatingAdd]
  omega

theorem toNat_saturatingMul_of_lt {a b : BitVec w} (h : a.toNat * b.toNat < 2 ^ w) :
    (saturatingMul a b).toNat = a.toNat * b.toNat := by
  rw [toNat_saturatingMul]
  omega

theorem toNat_saturatingAdd_le (a b : BitVec w) :
    (saturatingAdd a b).toNat ≤ a.toNat + b.toNat := by
  rw [toNat_saturatingAdd]
  exact min_le_left _ _

theorem le_toNat_saturatingAdd (a b : BitVec w) : a.toNat ≤ (saturatingAdd a b).toNat := by
  rw [toNat_saturatingAdd]
  have := a.isLt
  omega

theorem toNat_foldl_saturatingAdd_of_lt (l : List (BitVec w)) (a : BitVec w)
    (h : a.toNat + (l.map BitVec.toNat).sum < 2 ^ w) :
    (l.foldl saturatingAdd a).toNat = a.toNat + (l.map BitVec.toNat).sum := by
  induction l generalizing a with
  | nil => simp
  | cons b l ih =>
    rw [List.map_cons, List.sum_cons] at h ⊢
    have hab : (saturatingAdd a b).toNat = a.toNat + b.toNat :=
      toNat_saturatingAdd_of_lt (by omega)
    rw [List.foldl_cons, ih _ (by omega), hab]
    omega

@[simp] theorem toNat_minWord (a b : BitVec w) : (minWord a b).toNat = min a.toNat b.toNat := by
  unfold minWord
  split <;> omega

@[simp] theorem toNat_maxWord (a b : BitVec w) : (maxWord a b).toNat = max a.toNat b.toNat := by
  unfold maxWord
  split <;> omega

end Blq.Word
