import Blq.Spec.ForkChoice

/-!
# The work of a target

The work of a target is the expected number of hashes it takes to meet it, `2 ^ 256 / (target + 1)`.
The numerator does not fit into 256 bits, so the code divides the largest word and looks at the
remainder.

* `succ_div_eq`: the quotient of `largest + 1` from the quotient and the remainder of `largest`.
* `toNat_workForTarget`: **the work is exact**, up to the cap of 128 bits.
* `work_for_target_exact`: with its consequences for branches: work is positive, harder targets have
  at least as much, and every block adds some until the cap.
-/

namespace Blq

open Word

/-- The quotient grows by one where the remainder is the last before the divisor. -/
theorem succ_div_eq {largest denominator : ℕ} (h : 0 < denominator) :
    (largest + 1) / denominator =
      if largest % denominator = denominator - 1 then largest / denominator + 1
      else largest / denominator := by
  have hmod := Nat.mod_lt largest h
  have hdvd : denominator ∣ largest + 1 ↔ largest % denominator = denominator - 1 := by
    rw [Nat.dvd_iff_mod_eq_zero, Nat.add_mod]
    rcases Nat.lt_or_ge 1 denominator with hone | hone
    · rw [Nat.mod_eq_of_lt hone]
      rcases Nat.lt_or_ge (largest % denominator + 1) denominator with hlt | hge
      · rw [Nat.mod_eq_of_lt hlt]
        omega
      · have heq : largest % denominator + 1 = denominator := by omega
        rw [heq, Nat.mod_self]
        omega
    · obtain rfl : denominator = 1 := by omega
      omega
  rw [Nat.succ_div]
  simp only [hdvd]
  split <;> rfl

theorem one_le_div_of_target (target : Hash256) : 1 ≤ 2 ^ 256 / (target.toNat + 1) := by
  have htarget := target.isLt
  exact (Nat.one_le_div_iff (by omega)).mpr (by omega)

theorem toNat_capped {quotient : ℕ} (h : 1 ≤ quotient) :
    (if quotient > 2 ^ 128 - 1 then maxValue 128 else BitVec.ofNat 128 (max quotient 1)).toNat =
      min quotient (2 ^ 128 - 1) := by
  have hcap : (maxValue 128).toNat = 2 ^ 128 - 1 := by decide
  split_ifs with hlarge
  · omega
  · rw [toNat_ofNat_of_lt (by omega)]
    omega

/-- The quotient of the code, which misses the exact one for the target zero alone; there both are
above the cap. -/
theorem adjusted_quotient (target : Hash256) :
    ∃ quotient, (if (2 ^ 256 - 1) % (target.toNat + 1) = target.toNat + 1 - 1 ∧
        (2 ^ 256 - 1) / (target.toNat + 1) ≠ 2 ^ 256 - 1 then (2 ^ 256 - 1) / (target.toNat + 1) + 1
      else (2 ^ 256 - 1) / (target.toNat + 1)) = quotient ∧ 1 ≤ quotient ∧
      min quotient (2 ^ 128 - 1) = min (2 ^ 256 / (target.toNat + 1)) (2 ^ 128 - 1) := by
  have hpositive := one_le_div_of_target target
  have hexact : 2 ^ 256 / (target.toNat + 1) =
      if (2 ^ 256 - 1) % (target.toNat + 1) = target.toNat + 1 - 1 then
        (2 ^ 256 - 1) / (target.toNat + 1) + 1 else (2 ^ 256 - 1) / (target.toNat + 1) :=
    succ_div_eq (by omega)
  refine ⟨_, rfl, ?_⟩
  generalize 2 ^ 256 / (target.toNat + 1) = exact at *
  generalize (2 ^ 256 - 1) / (target.toNat + 1) = quotient at *
  generalize (2 ^ 256 - 1) % (target.toNat + 1) = remainder at *
  by_cases hremainder : remainder = target.toNat + 1 - 1
  · rw [if_pos hremainder] at hexact
    split_ifs with hguard
    · omega
    · have hlargest : quotient = 2 ^ 256 - 1 := by
        by_contra hne
        exact hguard ⟨hremainder, hne⟩
      omega
  · rw [if_neg hremainder] at hexact
    rw [if_neg (fun h => hremainder h.1)]
    omega

theorem toNat_workForTarget (target : Hash256) :
    (workForTarget target).toNat = min (2 ^ 256 / (target.toNat + 1)) (2 ^ 128 - 1) := by
  unfold workForTarget
  by_cases hmax : target = maxTarget
  · subst hmax
    rw [if_pos rfl]
    decide +kernel
  · obtain ⟨quotient, hquotient, hpositive, hmin⟩ := adjusted_quotient target
    rw [if_neg hmax]
    dsimp only
    rw [hquotient, toNat_capped hpositive, hmin]

theorem one_le_workForTarget (target : Hash256) : 1 ≤ (workForTarget target).toNat := by
  rw [toNat_workForTarget]
  have hpositive := one_le_div_of_target target
  omega

theorem BranchTip.lt_extend {tip : BranchTip} (h : tip.cumulativeWork ≠ maxValue 128)
    (hash target : Hash256) :
    tip.cumulativeWork.toNat < (tip.extend hash target).cumulativeWork.toNat := by
  have hpositive := one_le_workForTarget target
  have hlt := tip.cumulativeWork.isLt
  have hne : tip.cumulativeWork.toNat ≠ 2 ^ 128 - 1 := by
    intro heq
    exact h (BitVec.eq_of_toNat_eq heq)
  show _ < (saturatingAdd tip.cumulativeWork (workForTarget target)).toNat
  rw [toNat_saturatingAdd]
  omega

/-- **Work is the floor of `2 ^ 256 / (target + 1)`**, capped at the largest 128-bit number; it is
positive, does not grow with the target, and each block of a branch adds to it until the cap. -/
theorem work_for_target_exact :
    (∀ target : Hash256,
      (workForTarget target).toNat = min (2 ^ 256 / (target.toNat + 1)) (2 ^ 128 - 1) ∧
        1 ≤ (workForTarget target).toNat) ∧
    (∀ target target' : Hash256, target.toNat ≤ target'.toNat →
      (workForTarget target').toNat ≤ (workForTarget target).toNat) ∧
    ∀ (tip : BranchTip) (hash target : Hash256), tip.cumulativeWork ≠ maxValue 128 →
      tip.cumulativeWork.toNat < (tip.extend hash target).cumulativeWork.toNat := by
  refine ⟨fun target => ⟨toNat_workForTarget target, one_le_workForTarget target⟩,
    fun target target' hle => ?_, fun tip hash target htip => BranchTip.lt_extend htip hash target⟩
  rw [toNat_workForTarget, toNat_workForTarget]
  exact min_le_min_right _ (Nat.div_le_div_left (by omega) (by omega))

end Blq
