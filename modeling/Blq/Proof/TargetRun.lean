import Blq.Proof.Cadence
import Blq.Proof.DifficultyStart

/-!
# Targets along a chain

The retarget rules multiply by a fraction and cut the product off. On small targets the cut takes
everything: a quarter less than one is zero, and zero times any fraction stays zero; a sixteenth more
than fifteen is fifteen.

* `Cadence`: what a rule looks at, the interval of the block or the median and the latest interval.
* `Cadence.lt_next_iff`, `Cadence.next_ne_zero_iff`: when a step eases the target, and when it leaves
  a target at all.
* `targets_live_iff`: **the targets of a chain stay positive and rise when they should exactly when
  every step starts with enough room**: two before a harder target, and before an easier one the
  denominator of its fraction.
-/

namespace Blq

open Word Result

/-- What the rule of a block looks at: the interval to its parent, or the median and the latest of
the intervals before it. -/
inductive Cadence where
  | first (interval : U64)
  | second (median latest : U64)

namespace Cadence

/-- The target the rule gives. -/
def next (target : Hash256) : Cadence → Hash256
  | first interval => nextBlockDifficultyTarget target interval
  | second median latest => nextBlockDifficultyTargetV2 target median latest

/-- The blocks were too fast. -/
def Harder : Cadence → Prop
  | first interval => interval.toNat < 15
  | second median latest => median.toNat < 3 ∨ median.toNat < 15 ∧ latest.toNat < 60

/-- The blocks were too slow. -/
def Easier : Cadence → Prop
  | first interval => 45 < interval.toNat
  | second median latest => 3 ≤ median.toNat ∧ (60 ≤ latest.toNat ∨ 15 < median.toNat)

/-- The smallest target that the fraction of an easier step raises. -/
def smallestRaised : Cadence → ℕ
  | first _ => 4
  | second _ latest => if 60 ≤ latest.toNat then 8 else 16

/-- The target is large enough for the step. -/
def Room (target : Hash256) (c : Cadence) : Prop :=
  (c.Harder → 2 ≤ target.toNat) ∧ (c.Easier → c.smallestRaised ≤ target.toNat)

variable {target : Hash256} {c : Cadence}

theorem toNat_next_first (interval : U64) :
    ((first interval).next target).toNat =
      min (target.toNat * v1Quarters interval.toNat / 4) (2 ^ 256 - 1) :=
  toNat_nextBlockDifficultyTarget target interval

theorem toNat_next_second (median latest : U64) :
    ((second median latest).next target).toNat =
      min (target.toNat * v2Sixteenths median.toNat latest.toNat / 16) (2 ^ 256 - 1) :=
  toNat_nextBlockDifficultyTargetV2 target median latest

theorem toNat_ne_largest (h : target ≠ maxTarget) : target.toNat < 2 ^ 256 - 1 := by
  have hlt := target.isLt
  have hne : target.toNat ≠ 2 ^ 256 - 1 := fun heq => h (BitVec.eq_of_toNat_eq heq)
  omega

/-- **An easier step raises the target exactly when the target is at least the denominator.** -/
theorem lt_next_iff (heasier : c.Easier) (hmax : target ≠ maxTarget) :
    target.toNat < (c.next target).toNat ↔ c.smallestRaised ≤ target.toNat := by
  have hlt := toNat_ne_largest hmax
  cases c with
  | first interval =>
    have hfactor : v1Quarters interval.toNat = 5 := by
      unfold Easier at heasier
      unfold v1Quarters
      rw [if_neg (by omega), if_neg (by omega)]
    rw [toNat_next_first, hfactor]
    show _ ↔ 4 ≤ _
    omega
  | second median latest =>
    unfold Easier at heasier
    rw [toNat_next_second]
    unfold v2Sixteenths
    show _ ↔ (if 60 ≤ latest.toNat then 8 else 16) ≤ _
    rw [if_neg (by omega)]
    split_ifs with hslow hfast hmiddle
    all_goals omega

/-- **A step leaves a positive target positive unless it makes the target one harder.** -/
theorem next_ne_zero_iff (hpositive : target ≠ 0) :
    c.next target ≠ 0 ↔ (c.Harder → 2 ≤ target.toNat) := by
  have hone : 1 ≤ target.toNat := by
    rcases Nat.eq_zero_or_pos target.toNat with hzero | hzero
    · exact absurd (BitVec.eq_of_toNat_eq hzero) hpositive
    · exact hzero
  have hnonzero : c.next target ≠ 0 ↔ (c.next target).toNat ≠ 0 := by
    refine not_congr ⟨fun h => by rw [h]; rfl, fun h => BitVec.eq_of_toNat_eq h⟩
  rw [hnonzero]
  cases c with
  | first interval =>
    rw [toNat_next_first]
    unfold Harder v1Quarters
    split_ifs with hfast hslow
    all_goals omega
  | second median latest =>
    rw [toNat_next_second]
    unfold Harder v2Sixteenths
    split_ifs with hfast hslow hmedian hmiddle
    all_goals omega

end Cadence

/-! ## The rule of a block -/

variable {config : NodeConfig} {previousHeader : Hash256 → Except NodeError BlockHeader}
  {parent child : BlockHeader}

/-- The intervals the target of `child` is computed from. -/
def cadenceWithLookup (config : NodeConfig)
    (previousHeader : Hash256 → Except NodeError BlockHeader) (parent child : BlockHeader) :
    Except NodeError Cadence :=
  if config.blockTimeV2ActivationHeight.any fun activation =>
      decide (activation.toNat ≤ child.number.toNat) then do
    let (median, latest) ← difficultyHistoryIntervalsWithLookup parent previousHeader
    pure (.second median latest)
  else
    pure (.first (maxWord (saturatingSub child.timestampSeconds parent.timestampSeconds) 1))

theorem expectedTarget_eq_ok (hnumber : child.number ≠ 0) {target : Hash256} :
    expectedDifficultyTargetWithLookup config parent child previousHeader = .ok target ↔
      ∃ c, cadenceWithLookup config previousHeader parent child = .ok c ∧
        c.next parent.difficultyTarget = target := by
  unfold expectedDifficultyTargetWithLookup cadenceWithLookup
  rw [if_neg hnumber]
  split
  · simp only [bind_eq_ok, pure_eq_ok]
    constructor
    · rintro ⟨⟨median, latest⟩, hintervals, rfl⟩
      exact ⟨.second median latest, ⟨(median, latest), hintervals, rfl⟩, rfl⟩
    · rintro ⟨c, ⟨⟨median, latest⟩, hintervals, rfl⟩, rfl⟩
      exact ⟨(median, latest), hintervals, rfl⟩
  · simp only [pure_eq_ok]
    constructor
    · rintro rfl
      exact ⟨_, rfl, rfl⟩
    · rintro ⟨c, rfl, rfl⟩
      rfl

/-- A header after its parent, with the target of the retarget rule. -/
structure Retargeted (config : NodeConfig)
    (previousHeader : Hash256 → Except NodeError BlockHeader) (parent child : BlockHeader) : Prop where
  number : child.number ≠ 0
  target : expectedDifficultyTargetWithLookup config parent child previousHeader =
    .ok child.difficultyTarget

/-- The target rises if the rule calls for it and there is a larger one. -/
def RaisedIfEasier (config : NodeConfig)
    (previousHeader : Hash256 → Except NodeError BlockHeader) (parent child : BlockHeader) : Prop :=
  ∀ c, cadenceWithLookup config previousHeader parent child = .ok c → c.Easier →
    parent.difficultyTarget ≠ maxTarget →
      parent.difficultyTarget.toNat < child.difficultyTarget.toNat

/-- The parent's target has room for the step to the child's. -/
def RoomForStep (config : NodeConfig)
    (previousHeader : Hash256 → Except NodeError BlockHeader) (parent child : BlockHeader) : Prop :=
  ∀ c, cadenceWithLookup config previousHeader parent child = .ok c →
    c.Room parent.difficultyTarget

/-- One block: a positive target stays positive and rises when it should exactly with room. -/
theorem Retargeted.step_iff (h : Retargeted config previousHeader parent child)
    (hpositive : parent.difficultyTarget ≠ 0) :
    child.difficultyTarget ≠ 0 ∧ RaisedIfEasier config previousHeader parent child ↔
      RoomForStep config previousHeader parent child := by
  obtain ⟨c, hcadence, hnext⟩ := (expectedTarget_eq_ok h.number).mp h.target
  have honly : ∀ c', cadenceWithLookup config previousHeader parent child = .ok c' → c' = c := by
    intro c' hc'
    rw [hcadence] at hc'
    exact (Except.ok.inj hc').symm
  rw [← hnext, Cadence.next_ne_zero_iff hpositive]
  constructor
  · rintro ⟨hharder, hraised⟩ c' hc'
    obtain rfl := honly c' hc'
    refine ⟨hharder, fun heasier => ?_⟩
    by_cases hmax : parent.difficultyTarget = maxTarget
    · -- the largest target is above every threshold
      rw [hmax]
      unfold Cadence.smallestRaised
      cases c' with
      | first _ => exact (by decide : 4 ≤ maxTarget.toNat)
      | second _ latest =>
        have hlarge : 16 ≤ maxTarget.toNat := by decide
        dsimp only
        split_ifs <;> omega
    · have hlt := hraised c' hcadence heasier hmax
      rw [← hnext] at hlt
      exact (Cadence.lt_next_iff heasier hmax).mp hlt
  · intro hroom
    refine ⟨(hroom c hcadence).1, fun c' hc' heasier hmax => ?_⟩
    obtain rfl := honly c' hc'
    rw [← hnext]
    exact (Cadence.lt_next_iff heasier hmax).mpr ((hroom c' hcadence).2 heasier)

/-- **The targets of a chain stay alive exactly when every step has room.** From a positive first
target on, over any sequence of intervals and either rule. -/
theorem targets_live_iff (config : NodeConfig)
    (previousHeader : Hash256 → Except NodeError BlockHeader) (first : BlockHeader)
    (chain : List BlockHeader) (hpositive : first.difficultyTarget ≠ 0)
    (hchain : (first :: chain).IsChain (Retargeted config previousHeader)) :
    ((∀ header ∈ first :: chain, header.difficultyTarget ≠ 0) ∧
        (first :: chain).IsChain (RaisedIfEasier config previousHeader)) ↔
      (first :: chain).IsChain (RoomForStep config previousHeader) := by
  induction chain generalizing first with
  | nil =>
    have hone : ∀ header ∈ [first], header.difficultyTarget ≠ 0 := by
      intro header hheader
      rwa [List.mem_singleton.mp hheader]
    exact ⟨fun _ => .singleton _, fun _ => ⟨hone, .singleton _⟩⟩
  | cons child rest ih =>
    obtain ⟨hstep, hrest⟩ := List.isChain_cons_cons.mp hchain
    have hiff := hstep.step_iff hpositive
    rw [List.isChain_cons_cons, List.isChain_cons_cons]
    constructor
    · rintro ⟨halive, hraised, hlater⟩
      have hchild := halive child (by simp)
      refine ⟨hiff.mp ⟨hchild, hraised⟩, (ih child hchild hrest).mp ⟨fun header hheader => ?_, hlater⟩⟩
      exact halive header (List.mem_cons_of_mem _ hheader)
    · rintro ⟨hroom, hlater⟩
      obtain ⟨hchild, hraised⟩ := hiff.mpr hroom
      obtain ⟨halive, hraisedLater⟩ := (ih child hchild hrest).mpr hlater
      refine ⟨fun header hheader => ?_, hraised, hraisedLater⟩
      rcases List.mem_cons.mp hheader with rfl | hlate
      · exact hpositive
      · exact halive header hlate

/-! ## The smallest targets -/

def timedHeader (number timestampSeconds : U64) (target : Hash256) : BlockHeader :=
  { genesisHeader zeroOracle with
    number := number
    timestampSeconds := timestampSeconds
    difficultyTarget := target }

/-- Three blocks of the first rule: a fast one and a slow one. -/
theorem targets_live_iff_sixteen :
    (∀ header ∈ [timedHeader 0 0 16, timedHeader 1 10 12, timedHeader 2 70 15],
        header.difficultyTarget ≠ 0) ∧
      [timedHeader 0 0 16, timedHeader 1 10 12, timedHeader 2 70 15].IsChain
        (RaisedIfEasier (medianFile 9).node (windowLookup zeroOracle [])) := by
  refine (targets_live_iff (medianFile 9).node (windowLookup zeroOracle []) (timedHeader 0 0 16)
    [timedHeader 1 10 12, timedHeader 2 70 15] (by decide) ?_).mpr ?_
  · exact .cons_cons ⟨by decide, by decide +kernel⟩
      (.cons_cons ⟨by decide, by decide +kernel⟩ (.singleton _))
  · refine .cons_cons ?_ (.cons_cons ?_ (.singleton _))
    · intro c hc
      obtain rfl : Cadence.first 10 = c := Except.ok.inj hc
      exact ⟨fun _ => by decide, fun h => absurd h (by unfold Cadence.Easier; decide)⟩
    · intro c hc
      obtain rfl : Cadence.first 60 = c := Except.ok.inj hc
      exact ⟨fun h => absurd h (by unfold Cadence.Harder; decide), fun _ => by
        unfold Cadence.smallestRaised; decide⟩

/-- A fast block takes the target one to zero, where it stays after the slowest block; and under the
second rule a slow block leaves the target one where it is. -/
theorem smallest_target_is_lost :
    [timedHeader 0 0 1, timedHeader 1 1 0, timedHeader 2 1000 0].IsChain
        (Retargeted (medianFile 9).node (windowLookup zeroOracle [])) ∧
      [timedHeader 0 0 1, timedHeader 1 20 1, timedHeader 2 40 1].IsChain
        (Retargeted (medianFile 2).node (windowLookup zeroOracle [timedHeader 0 0 1])) ∧
      ∃ c, cadenceWithLookup (medianFile 2).node (windowLookup zeroOracle [timedHeader 0 0 1])
        (timedHeader 1 20 1) (timedHeader 2 40 1) = .ok c ∧ c.Easier := by
  refine ⟨?_, ?_, .second 20 20, rfl, by unfold Cadence.Easier; decide⟩
  · exact .cons_cons ⟨by decide, by decide +kernel⟩
      (.cons_cons ⟨by decide, by decide +kernel⟩ (.singleton _))
  · exact .cons_cons ⟨by decide, by decide +kernel⟩
      (.cons_cons ⟨by decide, by decide +kernel⟩ (.singleton _))

end Blq
