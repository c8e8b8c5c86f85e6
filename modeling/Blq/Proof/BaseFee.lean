import Mathlib.Data.Nat.Dist
import Blq.Proof.Validation

/-!
# The base fee of the next block

The base fee moves with the gas the parent used: up when it used more than half of its limit, down
when it used less, by at most an eighth. The change is computed from one product of the base fee and
a gas difference in 128 bits, which nothing bounds: the base fee of a header is checked against that
of its parent, and the gas limit against nothing.

* `toNat_nextBaseFeePerGas`: the next base fee when the product fits.
* `baseFeeStep_iff`: **the rule holds exactly when the product fits and the fee is not yet the
  largest word while it has to rise**.
-/

namespace Blq

open Word Result

variable {parent : BlockHeader}

/-- The gas by which a block missed half of its limit, as the factor of the product. -/
def baseFeeGasDelta (parent : BlockHeader) : U128 :=
  let targetGas := maxWord (parent.gasLimit / eip1559ElasticityMultiplier) 1
  (maxWord parent.gasUsed targetGas - minWord parent.gasUsed targetGas).setWidth 128

/-- The rule: no overflow on the way, a move of at most an eighth or one unit, up above half of the
gas limit, not up below it, and never from a positive fee to zero. -/
structure BaseFeeStep (parent : BlockHeader) : Prop where
  exact : (parent.baseFeePerGas * baseFeeGasDelta parent).toNat =
    parent.baseFeePerGas.toNat * (baseFeeGasDelta parent).toNat
  upper : (nextBaseFeePerGas parent).toNat ≤
    parent.baseFeePerGas.toNat + max 1 (parent.baseFeePerGas.toNat / 8)
  lower : parent.baseFeePerGas.toNat ≤
    (nextBaseFeePerGas parent).toNat + max 1 (parent.baseFeePerGas.toNat / 8)
  raised : parent.gasLimit.toNat < 2 * parent.gasUsed.toNat →
    parent.baseFeePerGas.toNat < (nextBaseFeePerGas parent).toNat
  lowered : 2 * parent.gasUsed.toNat < parent.gasLimit.toNat →
    (nextBaseFeePerGas parent).toNat ≤ parent.baseFeePerGas.toNat
  positive : 0 < parent.baseFeePerGas.toNat → 0 < (nextBaseFeePerGas parent).toNat

/-! ## The words as numbers -/

theorem toNat_targetGas (hlimit : 2 ≤ parent.gasLimit.toNat) :
    (maxWord (parent.gasLimit / eip1559ElasticityMultiplier) 1).toNat =
      parent.gasLimit.toNat / 2 := by
  rw [toNat_maxWord, BitVec.toNat_udiv]
  show max (parent.gasLimit.toNat / 2) 1 = _
  omega

theorem toNat_baseFeeGasDelta (hlimit : 2 ≤ parent.gasLimit.toNat) :
    (baseFeeGasDelta parent).toNat = Nat.dist parent.gasUsed.toNat (parent.gasLimit.toNat / 2) := by
  have hused := parent.gasUsed.isLt
  have hlimit' := parent.gasLimit.isLt
  unfold baseFeeGasDelta
  dsimp only
  rw [BitVec.toNat_setWidth, BitVec.toNat_sub_of_le, toNat_maxWord, toNat_minWord,
    toNat_targetGas hlimit, Nat.dist]
  · omega
  · rw [BitVec.le_def, toNat_maxWord, toNat_minWord]
    omega

theorem change_le_eighth (base : ℕ) {delta target : ℕ} (h : delta ≤ target) :
    base * delta / target / 8 ≤ base / 8 := by
  refine Nat.div_le_div_right (Nat.div_le_of_le_mul ?_)
  rw [Nat.mul_comm]
  exact Nat.mul_le_mul_right base h

section Change

variable (hlimit : 2 ≤ parent.gasLimit.toNat)
  (hfits : parent.baseFeePerGas.toNat *
    Nat.dist parent.gasUsed.toNat (parent.gasLimit.toNat / 2) < 2 ^ 128)
include hlimit hfits

theorem toNat_change {delta : U64}
    (hdelta : delta.toNat = Nat.dist parent.gasUsed.toNat (parent.gasLimit.toNat / 2)) :
    (parent.baseFeePerGas * delta.setWidth 128 /
        (maxWord (parent.gasLimit / eip1559ElasticityMultiplier) 1).setWidth 128 /
      eip1559BaseFeeMaxChangeDenominator).toNat =
      parent.baseFeePerGas.toNat * Nat.dist parent.gasUsed.toNat (parent.gasLimit.toNat / 2) /
        (parent.gasLimit.toNat / 2) / 8 := by
  have hsmall := parent.gasLimit.isLt
  have hwide : (delta.setWidth 128).toNat =
      Nat.dist parent.gasUsed.toNat (parent.gasLimit.toNat / 2) := by
    rw [BitVec.toNat_setWidth, ← hdelta]
    have := delta.isLt
    omega
  have htarget : ((maxWord (parent.gasLimit / eip1559ElasticityMultiplier) 1).setWidth 128).toNat =
      parent.gasLimit.toNat / 2 := by
    rw [BitVec.toNat_setWidth, toNat_targetGas hlimit]
    omega
  rw [BitVec.toNat_udiv, BitVec.toNat_udiv, htarget, BitVec.toNat_mul, hwide,
    Nat.mod_eq_of_lt hfits]
  rfl

/-- **The next base fee**, by the side of half of the limit on which the parent stayed. -/
theorem toNat_nextBaseFeePerGas :
    (nextBaseFeePerGas parent).toNat =
      if parent.gasUsed.toNat = parent.gasLimit.toNat / 2 then parent.baseFeePerGas.toNat
      else if parent.gasLimit.toNat / 2 < parent.gasUsed.toNat then
        min (parent.baseFeePerGas.toNat + max (parent.baseFeePerGas.toNat *
          Nat.dist parent.gasUsed.toNat (parent.gasLimit.toNat / 2) /
            (parent.gasLimit.toNat / 2) / 8) 1) (2 ^ 128 - 1)
      else parent.baseFeePerGas.toNat - parent.baseFeePerGas.toNat *
        Nat.dist parent.gasUsed.toNat (parent.gasLimit.toNat / 2) /
          (parent.gasLimit.toNat / 2) / 8 := by
  have htarget := toNat_targetGas hlimit
  unfold nextBaseFeePerGas
  simp only [← BitVec.toNat_inj, gt_iff_lt, htarget]
  split_ifs with hhalf habove
  · rfl
  · rw [toNat_saturatingAdd, toNat_maxWord, toNat_change hlimit hfits]
    · rfl
    · rw [BitVec.toNat_sub_of_le (by rw [BitVec.le_def, htarget]; omega), htarget, Nat.dist]
      omega
  · rw [toNat_saturatingSub, toNat_change hlimit hfits]
    rw [BitVec.toNat_sub_of_le (by rw [BitVec.le_def, htarget]; omega), htarget, Nat.dist]
    omega

end Change

/-! ## The rule -/

theorem baseFeeProduct_exact_iff (hlimit : 2 ≤ parent.gasLimit.toNat) :
    (parent.baseFeePerGas * baseFeeGasDelta parent).toNat =
        parent.baseFeePerGas.toNat * (baseFeeGasDelta parent).toNat ↔
      parent.baseFeePerGas.toNat *
        Nat.dist parent.gasUsed.toNat (parent.gasLimit.toNat / 2) < 2 ^ 128 := by
  rw [← toNat_baseFeeGasDelta hlimit, BitVec.toNat_mul]
  constructor
  · intro h
    rw [← h]
    exact Nat.mod_lt _ (Nat.two_pow_pos 128)
  · exact Nat.mod_eq_of_lt

/-- **The rule holds exactly when the product fits in 128 bits** and, where the fee has to rise, there
is a larger one. -/
theorem baseFeeStep_iff (parent : BlockHeader)
    (hused : parent.gasUsed.toNat ≤ parent.gasLimit.toNat) (heven : parent.gasLimit.toNat % 2 = 0)
    (hlimit : 2 ≤ parent.gasLimit.toNat) :
    BaseFeeStep parent ↔
      parent.baseFeePerGas.toNat *
          Nat.dist parent.gasUsed.toNat (parent.gasLimit.toNat / 2) < 2 ^ 128 ∧
        (parent.gasLimit.toNat < 2 * parent.gasUsed.toNat →
          parent.baseFeePerGas.toNat + 1 < 2 ^ 128) := by
  constructor
  · intro h
    refine ⟨(baseFeeProduct_exact_iff hlimit).mp h.exact, fun habove => ?_⟩
    have hraised := h.raised habove
    have hbound := (nextBaseFeePerGas parent).isLt
    omega
  · rintro ⟨hfits, hroom⟩
    have hnext := toNat_nextBaseFeePerGas hlimit hfits
    -- an even limit leaves at most half of it above the half
    have hdelta : Nat.dist parent.gasUsed.toNat (parent.gasLimit.toNat / 2) ≤
        parent.gasLimit.toNat / 2 := by
      rw [Nat.dist]
      omega
    have hchange := change_le_eighth parent.baseFeePerGas.toNat hdelta
    generalize parent.baseFeePerGas.toNat * _ / _ / 8 = change at hnext hchange
    refine ⟨(baseFeeProduct_exact_iff hlimit).mpr hfits, ?_, ?_, fun h => ?_, fun h => ?_, fun h => ?_⟩
    all_goals
      split_ifs at hnext
      all_goals omega

def fullHeader (baseFee : Bix) : BlockHeader :=
  { genesisHeader zeroOracle with
    number := 1
    timestampSeconds := 30
    gasLimit := 4
    gasUsed := 4
    baseFeePerGas := baseFee }

theorem baseFeeStep_iff_fullHeader : BaseFeeStep (fullHeader 800) :=
  (baseFeeStep_iff (fullHeader 800) (by decide) (by decide) (by decide)).mpr
    ⟨by decide, fun _ => by decide⟩

/-- The header passes validation. Its base fee times two is zero in 128 bits, so a full block raises
the fee by one unit and not by an eighth. -/
theorem fullHeader_overflows :
    validateHeaderWithGenesis zeroOracle (genesisHeader zeroOracle) (fullHeader (2 ^ 127)) 0 =
        .ok () ∧
      nextBaseFeePerGas (fullHeader (2 ^ 127)) = 2 ^ 127 + 1 ∧
      ¬BaseFeeStep (fullHeader (2 ^ 127)) := by
  refine ⟨by decide +kernel, by decide +kernel, fun h => ?_⟩
  exact absurd h.exact (by decide +kernel)

end Blq
