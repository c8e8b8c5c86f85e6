import Blq.Proof.Validation
import Blq.Spec.Execution

/-!
# The issuance of a chain

Every block is paid for the seconds since its parent, at one coin per 600 seconds and for at most
120 of them. Over a chain of accepted headers the seconds telescope.

* `reward_bounds`: one block, with the rounding of its division.
* `issuance_bounds`: **the subsidies of a chain are bounded by the time it covers**, from above
  whatever the timestamps, from below up to one smallest unit a block as long as no interval is
  longer than the cap.
-/

namespace Blq

open Word

/-- A part of what a chain of blocks adds to the supply, above a parent of the given timestamp:
the subsidies are the first part, the burned fees the second. -/
def supplyTotal (part : Bix × Bix → Bix) : U64 → List Block → ℕ
  | _, [] => 0
  | timestamp, block :: rest =>
    (part (blockSupplyDelta block timestamp)).toNat +
      supplyTotal part block.header.timestampSeconds rest

def tipTimestamp : U64 → List Block → U64
  | timestamp, [] => timestamp
  | _, block :: rest => tipTimestamp block.header.timestampSeconds rest

theorem supplyTotal_append (part : Bix × Bix → Bix) (timestamp : U64) (chain chain' : List Block) :
    supplyTotal part timestamp (chain ++ chain') =
      supplyTotal part timestamp chain + supplyTotal part (tipTimestamp timestamp chain) chain' := by
  induction chain generalizing timestamp with
  | nil => exact (Nat.zero_add _).symm
  | cons block rest ih =>
    simp only [List.cons_append, supplyTotal, tipTimestamp]
    rw [ih]
    omega

/-- Every header is accepted under the one before it. -/
def HeaderChain (O : Oracle) (genesisHash : Hash256) : BlockHeader → List Block → Prop
  | _, [] => True
  | parent, block :: rest =>
    validateHeaderWithGenesis O parent block.header genesisHash = .ok () ∧
      HeaderChain O genesisHash block.header rest

/-- No block comes later after its parent than the reward pays for. -/
def IntervalsCapped : U64 → List Block → Prop
  | _, [] => True
  | timestamp, block :: rest =>
    block.header.timestampSeconds.toNat - timestamp.toNat ≤ maxRewardIntervalSeconds.toNat ∧
      IntervalsCapped block.header.timestampSeconds rest

/-! ## One block -/

theorem toNat_blockReward (parent child : U64) :
    (blockRewardForIntervalBix parent child).toNat =
      bixPerBlq * min (child.toNat - parent.toNat) 120 / 600 := by
  have hrate : blqIssuancePerIntervalBix.toNat = bixPerBlq := by decide
  have helapsed : ((minWord (saturatingSub child parent) maxRewardIntervalSeconds).setWidth
      128).toNat = min (child.toNat - parent.toNat) 120 := by
    rw [BitVec.toNat_setWidth, toNat_minWord, toNat_saturatingSub]
    have hcap : maxRewardIntervalSeconds.toNat = 120 := rfl
    omega
  have hfits : blqIssuancePerIntervalBix.toNat *
      ((minWord (saturatingSub child parent) maxRewardIntervalSeconds).setWidth 128).toNat <
        2 ^ 128 := by
    rw [hrate, helapsed]
    unfold bixPerBlq
    omega
  unfold blockRewardForIntervalBix
  rw [BitVec.toNat_udiv, toNat_saturatingMul_of_lt hfits, hrate, helapsed]
  rfl

/-- **One block's subsidy**: at most the rate times its interval, and within one unit of it unless
the cap cuts the interval. -/
theorem reward_bounds (block : Block) (timestamp : U64) :
    600 * (blockSupplyDelta block timestamp).1.toNat ≤
        bixPerBlq * (block.header.timestampSeconds.toNat - timestamp.toNat) ∧
      (block.header.timestampSeconds.toNat - timestamp.toNat ≤ maxRewardIntervalSeconds.toNat →
        bixPerBlq * (block.header.timestampSeconds.toNat - timestamp.toNat) ≤
          600 * ((blockSupplyDelta block timestamp).1.toNat + 1)) := by
  have hcap : maxRewardIntervalSeconds.toNat = 120 := rfl
  have hreward : (blockSupplyDelta block timestamp).1.toNat =
      bixPerBlq * min (block.header.timestampSeconds.toNat - timestamp.toNat) 120 / 600 :=
    toNat_blockReward timestamp block.header.timestampSeconds
  rw [hreward, hcap]
  generalize block.header.timestampSeconds.toNat - timestamp.toNat = interval
  constructor
  · calc 600 * (bixPerBlq * min interval 120 / 600) ≤ bixPerBlq * min interval 120 :=
          Nat.mul_div_le _ _
      _ ≤ bixPerBlq * interval := Nat.mul_le_mul_left _ (min_le_left _ _)
  · intro hle
    rw [min_eq_left hle]
    omega

/-! ## A chain -/

theorem HeaderChain.le_tipTimestamp {O : Oracle} {genesisHash : Hash256} {genesis : BlockHeader}
    {chain : List Block} (h : HeaderChain O genesisHash genesis chain) :
    genesis.timestampSeconds.toNat ≤ (tipTimestamp genesis.timestampSeconds chain).toNat := by
  induction chain generalizing genesis with
  | nil => exact le_rfl
  | cons block rest ih =>
    have hstep := (validateHeaderWithGenesis_eq_ok.mp h.1).timestamp
    have hrest := ih h.2
    unfold tipTimestamp
    omega

/-- **The issuance of a chain of accepted headers**, by induction over its blocks: the intervals add
up to the time from the first header to the tip. -/
theorem issuance_bounds (O : Oracle) (genesisHash : Hash256) (genesis : BlockHeader)
    (chain : List Block) (h : HeaderChain O genesisHash genesis chain) :
    600 * supplyTotal Prod.fst genesis.timestampSeconds chain ≤
        bixPerBlq * ((tipTimestamp genesis.timestampSeconds chain).toNat -
          genesis.timestampSeconds.toNat) ∧
      (IntervalsCapped genesis.timestampSeconds chain →
        bixPerBlq * ((tipTimestamp genesis.timestampSeconds chain).toNat -
            genesis.timestampSeconds.toNat) ≤
          600 * (supplyTotal Prod.fst genesis.timestampSeconds chain + chain.length)) := by
  induction chain generalizing genesis with
  | nil => simp [supplyTotal, tipTimestamp]
  | cons block rest ih =>
    obtain ⟨hupper, hlower⟩ := ih block.header h.2
    obtain ⟨hstepUpper, hstepLower⟩ := reward_bounds block genesis.timestampSeconds
    have hstep := (validateHeaderWithGenesis_eq_ok.mp h.1).timestamp
    have hrest := h.2.le_tipTimestamp
    simp only [supplyTotal, tipTimestamp, List.length_cons]
    -- the time since genesis is the block's interval and the time since the block
    have hsplit : (tipTimestamp block.header.timestampSeconds rest).toNat -
        genesis.timestampSeconds.toNat =
        (block.header.timestampSeconds.toNat - genesis.timestampSeconds.toNat) +
          ((tipTimestamp block.header.timestampSeconds rest).toNat -
            block.header.timestampSeconds.toNat) := by
      omega
    rw [hsplit, Nat.mul_add, Nat.mul_add]
    constructor
    · exact Nat.add_le_add hstepUpper hupper
    · rintro ⟨hcapped, hrestCapped⟩
      have hfirst := hstepLower hcapped
      have hothers := hlower hrestCapped
      omega

def steadyChain : List Block :=
  [1, 2].map fun n : U64 =>
    { header := { genesisHeader zeroOracle with number := n, timestampSeconds := 30 * n }
      transactions := []
      receipts := [] }

theorem issuance_bounds_steadyChain :
    HeaderChain zeroOracle 0 (genesisHeader zeroOracle) steadyChain ∧
      600 * supplyTotal Prod.fst 0 steadyChain ≤ bixPerBlq * 60 ∧
      bixPerBlq * 60 ≤ 600 * (supplyTotal Prod.fst 0 steadyChain + 2) := by
  have hchain : HeaderChain zeroOracle 0 (genesisHeader zeroOracle) steadyChain := by
    refine ⟨?_, ?_, trivial⟩
    · decide +kernel
    · decide +kernel
  have hcapped : IntervalsCapped (genesisHeader zeroOracle).timestampSeconds steadyChain := by
    refine ⟨?_, ?_, trivial⟩
    · decide
    · decide
  obtain ⟨hupper, hlower⟩ :=
    issuance_bounds zeroOracle 0 (genesisHeader zeroOracle) steadyChain hchain
  exact ⟨hchain, hupper, hlower hcapped⟩

end Blq
