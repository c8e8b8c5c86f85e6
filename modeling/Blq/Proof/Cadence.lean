import Blq.Spec.Consensus
import Blq.Word.LongArithmetic

/-!
# The difficulty controllers

A controller multiplies the current target by a fraction that depends on the intervals between
blocks. The product is computed on the bytes of the target and capped at the largest one; here it is
the floor of the exact product.

* `toNat_scaleTargetFraction`, `toNat_scaleTarget`: the byte arithmetic is exact, so that the two
  routines agree (`scale_routines_exact`).
* `toNat_nextBlockDifficultyTargetV2`, `toNat_nextBlockDifficultyTarget`: both controllers are a
  multiplication by a fraction, in sixteenths and in quarters of the target.
* `difficulty_controllers_monotone`: **slower blocks never make the next block harder**, and a block
  changes the target by at most the fractions of the rule.
-/

namespace Blq

open Word

/-! ## Byte arithmetic on targets -/

theorem bytes_radix : (256 : ℕ) ^ 32 = 2 ^ 256 := by norm_num

variable (hash target : Hash256)

theorem length_beBytes_hash : (beBytes hash).length = 32 :=
  length_toBeBytes 32 _

theorem toNat_hashOfBytes {bs : Bytes} (h : bs.length = 32) :
    (hashOfBytes bs).toNat = ofBeBytes bs := by
  have hlt := ofBeBytes_lt bs
  rw [h, bytes_radix] at hlt
  exact Nat.mod_eq_of_lt hlt

theorem toNat_ite_maxTarget {bs : Bytes} {carry total : ℕ} (hlength : bs.length = 32)
    (h : ofBeBytes bs + carry * 2 ^ 256 = total) :
    (if carry > 0 then maxTarget else hashOfBytes bs).toNat = min total (2 ^ 256 - 1) := by
  have hlt : ofBeBytes bs < 2 ^ 256 := by
    rw [← toNat_hashOfBytes hlength]
    exact (hashOfBytes bs).isLt
  rw [← min_of_carry hlt h, ← toNat_hashOfBytes hlength, apply_ite BitVec.toNat]
  rfl

theorem divideHashWithRemainder_eq (divisor : U64) :
    divideHashWithRemainder hash divisor =
      (hashOfBytes (longDivision (beBytes hash) divisor.toNat).1,
        BitVec.ofNat 64 (longDivision (beBytes hash) divisor.toNat).2) := by
  unfold divideHashWithRemainder
  generalize beBytes hash = bs
  rfl

theorem multiplyHashU64_eq (multiplier : U64) :
    multiplyHashU64 hash multiplier =
      if (multiplyBytes (beBytes hash) multiplier.toNat).2 > 0 then maxTarget
      else hashOfBytes (multiplyBytes (beBytes hash) multiplier.toNat).1 := by
  unfold multiplyHashU64
  generalize beBytes hash = bs
  rfl

theorem addCarry_eq (carry : ℕ) :
    addCarry hash carry =
      if (addBytes (beBytes hash) carry).2 > 0 then maxTarget
      else hashOfBytes (addBytes (beBytes hash) carry).1 := by
  unfold addCarry
  generalize beBytes hash = bs
  rfl

theorem divideHashWithRemainder_spec {divisor : U64} (hdivisor : 0 < divisor.toNat) :
    (divideHashWithRemainder hash divisor).1.toNat = hash.toNat / divisor.toNat ∧
      (divideHashWithRemainder hash divisor).2.toNat = hash.toNat % divisor.toNat := by
  obtain ⟨hvalue, hlt, hlength⟩ := longDivision_spec (beBytes hash) hdivisor
  have hsmall := divisor.isLt
  rw [ofBeBytes_beBytes rfl] at hvalue
  rw [length_beBytes_hash] at hlength
  rw [divideHashWithRemainder_eq, toNat_hashOfBytes hlength, toNat_ofNat_of_lt (by omega), ← hvalue]
  refine ⟨?_, ?_⟩
  · rw [Nat.add_comm, Nat.add_mul_div_right _ _ hdivisor, Nat.div_eq_of_lt hlt, Nat.zero_add]
  · rw [Nat.add_comm, Nat.add_mul_mod_self_right, Nat.mod_eq_of_lt hlt]

theorem toNat_multiplyHashU64 (multiplier : U64) :
    (multiplyHashU64 hash multiplier).toNat =
      min (hash.toNat * multiplier.toNat) (2 ^ 256 - 1) := by
  obtain ⟨hlength, hvalue⟩ := multiplyBytes_spec (beBytes hash) multiplier.toNat
  rw [ofBeBytes_beBytes rfl, length_beBytes_hash, bytes_radix] at hvalue
  rw [multiplyHashU64_eq]
  exact toNat_ite_maxTarget (hlength.trans (length_beBytes_hash hash)) hvalue

theorem toNat_addCarry (carry : ℕ) :
    (addCarry hash carry).toNat = min (hash.toNat + carry) (2 ^ 256 - 1) := by
  obtain ⟨hlength, hvalue⟩ := addBytes_spec (beBytes hash) carry
  rw [ofBeBytes_beBytes rfl, Nat.mul_one, length_beBytes_hash, bytes_radix] at hvalue
  rw [addCarry_eq]
  exact toNat_ite_maxTarget (hlength.trans (length_beBytes_hash hash)) hvalue

theorem div_mul_add_mod_mul (a n : ℕ) {d : ℕ} (hd : 0 < d) :
    a / d * n + a % d * n / d = a * n / d := by
  have hsplit : a * n = a % d * n + a / d * n * d := by
    conv_lhs => rw [← Nat.mod_add_div a d]
    ring
  rw [hsplit, Nat.add_mul_div_right _ _ hd, Nat.add_comm]

theorem toNat_scaleTargetFraction (numerator : U64) {denominator : U64} (h : 0 < denominator.toNat) :
    (scaleTargetFraction target numerator denominator).toNat =
      min (target.toNat * numerator.toNat / denominator.toNat) (2 ^ 256 - 1) := by
  obtain ⟨hquotient, hremainder⟩ := divideHashWithRemainder_spec target h
  have hunfold : scaleTargetFraction target numerator denominator =
      addCarry (multiplyHashU64 (divideHashWithRemainder target denominator).1 numerator)
        ((divideHashWithRemainder target denominator).2.toNat * numerator.toNat /
          denominator.toNat) := by
    unfold scaleTargetFraction
    generalize divideHashWithRemainder target denominator = parts
    rfl
  rw [hunfold, toNat_addCarry, toNat_multiplyHashU64, hquotient, hremainder,
    ← div_mul_add_mod_mul target.toNat numerator.toNat h]
  generalize target.toNat % _ * _ / _ = low
  omega

/-- The cut of the scaled remainder to 64 bits cuts nothing. -/
theorem toNat_scaleTarget (numerator : U64) {denominator : U64} (h : 0 < denominator.toNat) :
    (scaleTarget target numerator denominator).toNat =
      min (target.toNat * numerator.toNat / denominator.toNat) (2 ^ 256 - 1) := by
  have hne : denominator ≠ 0 := by
    rintro rfl
    exact absurd h (by decide)
  have hlt : (divideHashWithRemainder target denominator).2.toNat * numerator.toNat /
      denominator.toNat < 2 ^ 64 := by
    have hnumerator := numerator.isLt
    rw [(divideHashWithRemainder_spec target h).2]
    refine lt_of_le_of_lt (Nat.div_le_of_le_mul ?_) hnumerator
    exact Nat.mul_le_mul_right _ (Nat.mod_lt _ h).le
  have hsame : scaleTarget target numerator denominator =
      scaleTargetFraction target numerator denominator := by
    unfold scaleTarget scaleTargetFraction
    rw [if_neg hne]
    dsimp only
    rw [Nat.mod_eq_of_lt hlt]
  rw [hsame, toNat_scaleTargetFraction target numerator h]

/-- **The two routines are the exact product, cut at the largest target**, and agree. -/
theorem scale_routines_exact (target : Hash256) (numerator denominator : U64)
    (h : 0 < denominator.toNat) :
    (scaleTarget target numerator denominator).toNat =
        min (target.toNat * numerator.toNat / denominator.toNat) (2 ^ 256 - 1) ∧
      (scaleTargetFraction target numerator denominator).toNat =
        min (target.toNat * numerator.toNat / denominator.toNat) (2 ^ 256 - 1) ∧
      scaleTarget target numerator denominator = scaleTargetFraction target numerator denominator := by
  have hscale := toNat_scaleTarget target numerator h
  have hfraction := toNat_scaleTargetFraction target numerator h
  exact ⟨hscale, hfraction, BitVec.eq_of_toNat_eq (hscale.trans hfraction.symm)⟩

/-- Five halves of a target near the largest one are cut, three halves of a small one rounded. -/
theorem scale_routines_exact_halves :
    (scaleTarget maxTarget 5 2 = maxTarget ∧ (scaleTarget 5 3 2).toNat = 7) ∧
      scaleTarget maxTarget 5 2 = scaleTargetFraction maxTarget 5 2 ∧
      scaleTarget 5 3 2 = scaleTargetFraction 5 3 2 := by
  have hcut := scale_routines_exact maxTarget 5 2 (by decide)
  have hrounded := scale_routines_exact 5 3 2 (by decide)
  exact ⟨⟨BitVec.eq_of_toNat_eq hcut.1, hrounded.1⟩, hcut.2.2, hrounded.2.2⟩

/-! ## The controllers -/

def v2Sixteenths (median latest : ℕ) : ℕ :=
  if median < 3 then 12
  else if 60 ≤ latest then 18
  else if median < 15 then 15
  else if median = 15 then 16
  else 17

def v1Quarters (interval : ℕ) : ℕ :=
  if interval < 15 then 3 else if interval ≤ 45 then 4 else 5

theorem v2Sixteenths_mono_median {median median' : ℕ} (latest : ℕ) (h : median ≤ median') :
    v2Sixteenths median latest ≤ v2Sixteenths median' latest := by
  unfold v2Sixteenths
  split_ifs <;> omega

theorem v2Sixteenths_mono_latest (median : ℕ) {latest latest' : ℕ} (h : latest ≤ latest') :
    v2Sixteenths median latest ≤ v2Sixteenths median latest' := by
  unfold v2Sixteenths
  split_ifs <;> omega

theorem v2Sixteenths_bounds (median latest : ℕ) :
    12 ≤ v2Sixteenths median latest ∧ v2Sixteenths median latest ≤ 18 := by
  unfold v2Sixteenths
  split_ifs <;> omega

theorem v1Quarters_mono {interval interval' : ℕ} (h : interval ≤ interval') :
    v1Quarters interval ≤ v1Quarters interval' := by
  unfold v1Quarters
  split_ifs <;> omega

theorem v1Quarters_bounds (interval : ℕ) : 3 ≤ v1Quarters interval ∧ v1Quarters interval ≤ 5 := by
  unfold v1Quarters
  split_ifs <;> omega

theorem toNat_nextBlockDifficultyTarget (interval : U64) :
    (nextBlockDifficultyTarget target interval).toNat =
      min (target.toNat * v1Quarters interval.toNat / 4) (2 ^ 256 - 1) := by
  have htarget := target.isLt
  unfold nextBlockDifficultyTarget v1Quarters minAcceptableBlockTimeSeconds
    maxAcceptableBlockTimeSeconds
  by_cases hfast : interval.toNat < 15
  · rw [if_neg (by omega), if_neg (by omega), if_pos hfast, toNat_scaleTargetFraction _ _ (by decide)]
    show min (target.toNat * 75 / 100) _ = _
    omega
  by_cases hslow : interval.toNat ≤ 45
  · rw [if_pos ⟨by omega, hslow⟩, if_neg hfast, if_pos hslow]
    omega
  · rw [if_neg (by omega), if_pos (by omega), if_neg hfast, if_neg hslow,
      toNat_scaleTargetFraction _ _ (by decide)]
    show min (target.toNat * 125 / 100) _ = _
    omega

/-- The products of the two comparisons, which saturate only on intervals that are above the cap
anyway. -/
theorem toNat_v2Numerator (median : U64) :
    (saturatingMul (saturatingMul median blockTimeV2NormalCapDenominator)
      blockTimeV2NormalCapDenominator).toNat = min (256 * median.toNat) (2 ^ 64 - 1) := by
  rw [toNat_saturatingMul, toNat_saturatingMul]
  show min (min (median.toNat * 16) _ * 16) _ = _
  omega

theorem toNat_nextBlockDifficultyTargetV2 (median latest : U64) :
    (nextBlockDifficultyTargetV2 target median latest).toNat =
      min (target.toNat * v2Sixteenths median.toNat latest.toNat / 16) (2 ^ 256 - 1) := by
  have htarget := target.isLt
  have hlow : (saturatingMul (saturatingMul blockTimeV2TargetSeconds blockTimeV2NormalCapDenominator)
      (blockTimeV2NormalCapDenominator - 1)).toNat = 3600 := by
    decide +kernel
  have hhigh : (saturatingMul (saturatingMul blockTimeV2TargetSeconds
      blockTimeV2NormalCapDenominator) blockTimeV2NormalCapNumerator).toNat = 4080 := by
    decide +kernel
  unfold nextBlockDifficultyTargetV2 v2Sixteenths blockTimeV2FastMedianSeconds
    blockTimeV2SlowIntervalSeconds
  dsimp only
  rw [toNat_v2Numerator, hlow, hhigh]
  by_cases hfast : median.toNat < 3
  · rw [if_pos hfast, if_pos hfast, toNat_scaleTargetFraction _ _ (by decide)]
    show min (target.toNat * 75 / 100) _ = _
    omega
  by_cases hslow : 60 ≤ latest.toNat
  · rw [if_neg hfast, if_neg hfast, if_pos hslow, if_pos hslow,
      toNat_scaleTargetFraction _ _ (by decide)]
    show min (target.toNat * 9 / 8) _ = _
    omega
  rw [if_neg hfast, if_neg hfast, if_neg hslow, if_neg hslow]
  -- the fraction lies inside the caps for one median only
  rcases lt_trichotomy median.toNat 15 with hmedian | hmedian | hmedian
  · rw [if_pos (by omega), if_pos hmedian, toNat_scaleTargetFraction _ _ (by decide)]
    show min (target.toNat * 15 / 16) _ = _
    rfl
  · obtain rfl : median = 15 := BitVec.eq_of_toNat_eq hmedian
    rw [if_neg (by decide), if_neg (by decide), if_neg (by decide), if_pos (by decide),
      toNat_scaleTarget _ _ (by decide)]
    show min (target.toNat * 240 / 240) _ = _
    omega
  · rw [if_neg (by omega), if_pos (by omega), if_neg (by omega), if_neg (by omega),
      toNat_scaleTargetFraction _ _ (by decide)]
    show min (target.toNat * 17 / 16) _ = _
    rfl

theorem scaled_mono {t t' n n' : ℕ} (d cap : ℕ) (ht : t ≤ t') (hn : n ≤ n') :
    min (t * n / d) cap ≤ min (t' * n' / d) cap :=
  min_le_min_right cap (Nat.div_le_div_right (Nat.mul_le_mul ht hn))

/-- **Both controllers are monotone and bounded.** The second one moves the target to at least three
quarters and at most nine eighths, the first one by at most a quarter; both are capped. -/
theorem difficulty_controllers_monotone :
    (∀ (target : Hash256) (median latest : U64),
      target.toNat * 3 / 4 ≤ (nextBlockDifficultyTargetV2 target median latest).toNat ∧
        (nextBlockDifficultyTargetV2 target median latest).toNat ≤
          min (target.toNat * 9 / 8) (2 ^ 256 - 1)) ∧
    (∀ (target target' : Hash256) (median median' latest latest' : U64),
      target.toNat ≤ target'.toNat → median.toNat ≤ median'.toNat → latest.toNat ≤ latest'.toNat →
        (nextBlockDifficultyTargetV2 target median latest).toNat ≤
          (nextBlockDifficultyTargetV2 target' median' latest').toNat) ∧
    (∀ (target : Hash256) (interval : U64),
      target.toNat * 3 / 4 ≤ (nextBlockDifficultyTarget target interval).toNat ∧
        (nextBlockDifficultyTarget target interval).toNat ≤
          min (target.toNat * 5 / 4) (2 ^ 256 - 1)) ∧
    ∀ (target target' : Hash256) (interval interval' : U64),
      target.toNat ≤ target'.toNat → interval.toNat ≤ interval'.toNat →
        (nextBlockDifficultyTarget target interval).toNat ≤
          (nextBlockDifficultyTarget target' interval').toNat := by
  refine ⟨fun target median latest => ?_, fun target target' median median' latest latest' ht hm hl => ?_,
    fun target interval => ?_, fun target target' interval interval' ht hi => ?_⟩
  · obtain ⟨hlower, hupper⟩ := v2Sixteenths_bounds median.toNat latest.toNat
    have htarget := target.isLt
    have hlow := scaled_mono 16 (2 ^ 256 - 1) (le_refl target.toNat) hlower
    have hhigh := scaled_mono 16 (2 ^ 256 - 1) (le_refl target.toNat) hupper
    rw [toNat_nextBlockDifficultyTargetV2]
    omega
  · rw [toNat_nextBlockDifficultyTargetV2, toNat_nextBlockDifficultyTargetV2]
    exact scaled_mono _ _ ht
      ((v2Sixteenths_mono_median _ hm).trans (v2Sixteenths_mono_latest _ hl))
  · obtain ⟨hlower, hupper⟩ := v1Quarters_bounds interval.toNat
    have htarget := target.isLt
    have hlow := scaled_mono 4 (2 ^ 256 - 1) (le_refl target.toNat) hlower
    have hhigh := scaled_mono 4 (2 ^ 256 - 1) (le_refl target.toNat) hupper
    rw [toNat_nextBlockDifficultyTarget]
    omega
  · rw [toNat_nextBlockDifficultyTarget, toNat_nextBlockDifficultyTarget]
    exact scaled_mono _ _ ht (v1Quarters_mono hi)

end Blq
