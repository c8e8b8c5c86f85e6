import Mathlib.Data.FinEnum
import Blq.Proof.State

/-!
# The supply law of contract blocks

What a contract block does to the sum of all balances, for every EVM that only moves
value between accounts apart from the gas it charges (`MovesValue`).

* `evmTransactionStep_ok`: what one turn of the loop over the transactions does.
* `blockRun_of_foldlM`: what the whole loop does to the total, to the beneficiary and to
  the fee counters, by induction over the transactions.
* `settle_total`: what the final settlement adds. It takes the tips back by a clamped
  subtraction, so it creates whatever part of them the beneficiary no longer holds.
* `contract_block_supply_iff`: the supply changes by the subsidy minus the burned fees
  exactly when the block does not take more out of the beneficiary's account than the
  account held before the block.
-/

namespace Blq

open Word Result

variable {block : Block} {parentTimestamp : U64}

/-! ## Totals of a state -/

namespace RevmState

def balanceOf (S : RevmState) (a : Address) : ℕ := (S.account a).balance.toNat

def totalBalance (S : RevmState) : ℕ := Map.total (fun account => account.balance.toNat) S.accounts

theorem elim_balance (S : RevmState) (a : Address) :
    (S.accounts[a]?).elim 0 (fun account => account.balance.toNat) = S.balanceOf a := by
  unfold balanceOf account
  cases S.accounts[a]? with
  | none => rfl
  | some account => rfl

theorem totalBalance_eq_sum (S : RevmState) : S.totalBalance = ∑ a, S.balanceOf a := by
  rw [totalBalance, Map.total_eq_sum]
  exact Finset.sum_congr rfl fun a _ => S.elim_balance a

theorem balanceOf_le_totalBalance (S : RevmState) (a : Address) : S.balanceOf a ≤ S.totalBalance := by
  rw [totalBalance_eq_sum]
  exact Finset.single_le_sum (f := S.balanceOf) (fun _ _ => Nat.zero_le _) (Finset.mem_univ a)

theorem totalBalance_putAccount (S : RevmState) (a : Address) (account : RevmAccount) :
    (S.putAccount a account).totalBalance + S.balanceOf a =
      S.totalBalance + account.balance.toNat := by
  have h := Map.total_insert (fun account => account.balance.toNat) S.accounts a account
  rwa [S.elim_balance] at h

end RevmState

/-! ## Executors that only move value -/

def gasFee (base : Bix) (t : Transaction) (gas : U64) : ℕ :=
  gas.toNat * (effectiveGasPrice t base).toNat

/-- **The executor only moves value.** `moved S header t a` is what transaction `t` moves
into account `a`, with its sign; over all accounts this is nothing. Apart from it the
sender pays for the gas at the effective price, the base-fee part of which is destroyed
and the rest of which goes to the beneficiary. -/
structure MovesValue (R : Revm) (moved : RevmState → BlockHeader → Transaction → Address → ℤ) :
    Prop where
  net_zero : ∀ {S header t out S'}, executeTransaction R S header t = .ok (out, S') →
    ∑ a, moved S header t a = 0
  balance_eq : ∀ {S header t out S'}, executeTransaction R S header t = .ok (out, S') → ∀ a,
    (S'.balanceOf a : ℤ) = S.balanceOf a + moved S header t a -
      (if a = t.from_ then (gasFee header.baseFeePerGas t out.gasUsed : ℤ) else 0) +
      (if a = header.beneficiaryAddress then
        (gasFee header.baseFeePerGas t out.gasUsed : ℤ) -
          out.gasUsed.toNat * header.baseFeePerGas.toNat else 0)

variable {O : Oracle} {R : Revm} {moved : RevmState → BlockHeader → Transaction → Address → ℤ}
  {S : RevmState} {header : BlockHeader} {t : Transaction} {base : Bix} {p : EvmProgress}
  {txs : List Transaction} {q : Transaction × Receipt} {qs : List (Transaction × Receipt)}
  {rs : List Receipt}

theorem MovesValue.total_eq (hR : MovesValue R moved) {S' : RevmState} {out : ExecutionOutput}
    (h : executeTransaction R S header t = .ok (out, S')) :
    (S'.totalBalance : ℤ) + out.gasUsed.toNat * header.baseFeePerGas.toNat = S.totalBalance := by
  have hsum : (S'.totalBalance : ℤ) = ∑ a, (S'.balanceOf a : ℤ) := by
    rw [S'.totalBalance_eq_sum, Nat.cast_sum]
  rw [hsum, Finset.sum_congr rfl fun a _ => hR.balance_eq h a, Finset.sum_add_distrib,
    Finset.sum_sub_distrib, Finset.sum_add_distrib, hR.net_zero h, Finset.sum_ite_eq',
    Finset.sum_ite_eq', if_pos (Finset.mem_univ _), if_pos (Finset.mem_univ _),
    S.totalBalance_eq_sum, Nat.cast_sum]
  ring

variable (R moved) in
/-- What the transactions take out of the beneficiary's account, less what they move into
it, the tips set aside. -/
def beneficiaryOutlay (header : BlockHeader) : RevmState → List Transaction → ℤ
  | _, [] => 0
  | S, t :: ts =>
    match executeTransaction R S header t with
    | .ok (out, S') =>
      (if header.beneficiaryAddress = t.from_ then
        (gasFee header.baseFeePerGas t out.gasUsed : ℤ) else 0) -
        moved S header t header.beneficiaryAddress + beneficiaryOutlay header S' ts
    | .error _ => 0

/-! ## The loop over the transactions -/

theorem validateTransactionFee_le (h : validateTransactionFee t base = .ok ()) :
    base.toNat ≤ t.maxFeePerGas.toNat := by
  simp [validateTransactionFee] at h
  exact h.2.2.2.2.1

theorem base_le_effectiveGasPrice (h : base.toNat ≤ t.maxFeePerGas.toNat) :
    base.toNat ≤ (effectiveGasPrice t base).toNat := by
  rw [effectiveGasPrice, toNat_minWord]
  exact le_min h (le_toNat_saturatingAdd _ _)

theorem addGas_ok {a b c : U64} (h : addGas a b = .ok c) : c = a + b := by
  unfold addGas at h
  split at h
  · next sum hsum =>
    obtain rfl := pure_eq_ok.mp h
    unfold checkedAdd at hsum
    split at hsum
    · exact (Option.some.inj hsum).symm
    · cases hsum
  · exact absurd h throw_ne_ok

/-- The fee of a transaction as the counters hold it. -/
def feeOf (base : Bix) (q : Transaction × Receipt) : U128 :=
  saturatingMul (q.2.gasUsed.setWidth 128) (effectiveGasPrice q.1 base)

/-- The tip of a transaction as the counters hold it. -/
def tipOf (base : Bix) (q : Transaction × Receipt) : U128 :=
  saturatingMul (q.2.gasUsed.setWidth 128) (saturatingSub (effectiveGasPrice q.1 base) base)

theorem evmTransactionStep_ok {p' : EvmProgress} (h : evmTransactionStep O R header p t = .ok p') :
    ∃ out receipt, executeTransaction R p.state header t = .ok (out, p'.state) ∧
      header.baseFeePerGas.toNat ≤ (effectiveGasPrice t header.baseFeePerGas).toNat ∧
      receipt.gasUsed = out.gasUsed ∧ p'.receipts = p.receipts ++ [receipt] ∧
      p'.gasUsed = p.gasUsed + receipt.gasUsed ∧
      p'.grossFees = saturatingAdd p.grossFees (feeOf header.baseFeePerGas (t, receipt)) ∧
      p'.revmTips = saturatingAdd p.revmTips (tipOf header.baseFeePerGas (t, receipt)) := by
  simp only [evmTransactionStep, liftConsensus, bind_eq_ok, mapError_eq_ok, pure_eq_ok] at h
  obtain ⟨⟨⟩, hfee, ⟨out, S'⟩, hexec, gas, hgas, rfl⟩ := h
  exact ⟨out, _, hexec, base_le_effectiveGasPrice (validateTransactionFee_le hfee), rfl, rfl,
    addGas_ok hgas, rfl, rfl⟩

/-- The exact fees of a list of transactions and their receipts. -/
def totalFees (base : Bix) (qs : List (Transaction × Receipt)) : ℕ :=
  (qs.map fun q => gasFee base q.1 q.2.gasUsed).sum

def Block.withReceipts (block : Block) (receipts : List Receipt) : Block :=
  { block with receipts := receipts }

@[simp] theorem Block.header_withReceipts (block : Block) (receipts : List Receipt) :
    (block.withReceipts receipts).header = block.header := rfl

@[simp] theorem Block.transactions_withReceipts (block : Block) (receipts : List Receipt) :
    (block.withReceipts receipts).transactions = block.transactions := rfl

@[simp] theorem Block.receipts_withReceipts (block : Block) (receipts : List Receipt) :
    (block.withReceipts receipts).receipts = receipts := rfl

/-- The part of the fees that is destroyed. -/
def totalBaseFees (base : Bix) (qs : List (Transaction × Receipt)) : ℕ :=
  (qs.map fun q => q.2.gasUsed.toNat * base.toNat).sum

/-- **What the loop over a block's transactions does**, `rs` being the receipts it adds. -/
structure BlockRun (R : Revm) (moved : RevmState → BlockHeader → Transaction → Address → ℤ)
    (header : BlockHeader) (txs : List Transaction) (p p' : EvmProgress) (rs : List Receipt) :
    Prop where
  receipts : p'.receipts = p.receipts ++ rs
  gasUsed : p'.gasUsed = (rs.map fun r => r.gasUsed).foldl (· + ·) p.gasUsed
  grossFees : p'.grossFees =
    ((txs.zip rs).map (feeOf header.baseFeePerGas)).foldl saturatingAdd p.grossFees
  revmTips : p'.revmTips =
    ((txs.zip rs).map (tipOf header.baseFeePerGas)).foldl saturatingAdd p.revmTips
  price : ∀ q ∈ txs.zip rs,
    header.baseFeePerGas.toNat ≤ (effectiveGasPrice q.1 header.baseFeePerGas).toNat
  total : (p'.state.totalBalance : ℤ) + totalBaseFees header.baseFeePerGas (txs.zip rs) =
    p.state.totalBalance
  beneficiary : (p'.state.balanceOf header.beneficiaryAddress : ℤ) +
      totalBaseFees header.baseFeePerGas (txs.zip rs) +
      beneficiaryOutlay R moved header p.state txs =
    p.state.balanceOf header.beneficiaryAddress + totalFees header.baseFeePerGas (txs.zip rs)

/-- **Run lemma.** By induction over the transactions, one `evmTransactionStep_ok` each. -/
theorem blockRun_of_foldlM (hR : MovesValue R moved) {p' : EvmProgress}
    (h : txs.foldlM (evmTransactionStep O R header) p = .ok p') :
    ∃ rs, BlockRun R moved header txs p p' rs := by
  induction txs generalizing p with
  | nil =>
    obtain rfl := pure_eq_ok.mp h
    exact ⟨[], by simp, rfl, rfl, rfl, by simp, by simp [totalBaseFees],
      by simp [totalBaseFees, totalFees, beneficiaryOutlay]⟩
  | cons t txs ih =>
    rw [List.foldlM_cons, bind_eq_ok] at h
    obtain ⟨p₁, hstep, hrest⟩ := h
    obtain ⟨out, r, hexec, hprice, hr, hreceipts, hgas, hgross, htips⟩ := evmTransactionStep_ok hstep
    obtain ⟨rs, hrun⟩ := ih hrest
    have htotal := hR.total_eq hexec
    have hben := hR.balance_eq hexec header.beneficiaryAddress
    refine ⟨r :: rs, ?_, ?_, ?_, ?_, ?_, ?_, ?_⟩
    · rw [hrun.receipts, hreceipts, List.append_assoc, List.singleton_append]
    · rw [hrun.gasUsed, hgas, List.map_cons, List.foldl_cons]
    · rw [hrun.grossFees, hgross, List.zip_cons_cons, List.map_cons, List.foldl_cons]
    · rw [hrun.revmTips, htips, List.zip_cons_cons, List.map_cons, List.foldl_cons]
    · intro q hq
      rcases List.mem_cons.mp hq with rfl | hq
      · exact hprice
      · exact hrun.price q hq
    · have := hrun.total
      rw [← hr] at htotal
      simp only [totalBaseFees, List.zip_cons_cons, List.map_cons, List.sum_cons] at this ⊢
      push_cast at this ⊢
      linarith
    · have := hrun.beneficiary
      rw [if_pos rfl, ← hr] at hben
      simp only [beneficiaryOutlay, hexec]
      simp only [totalBaseFees, totalFees, List.zip_cons_cons, List.map_cons, List.sum_cons] at this ⊢
      rw [← hr]
      push_cast at this ⊢
      linarith

/-! ## The settlement -/

theorem burnPercent_le (u : U64) : (feeSplitForUtilization u).burnPercent.toNat ≤ 100 := by
  simp only [feeSplitForUtilization, UInt8.toNat_ofNat', minBurnPercent, maxBurnPercent]
  have hden : maxUtilizationBasisPoints.toNat = 10000 := rfl
  rw [hden]
  refine le_trans (Nat.mod_le _ _) ?_
  omega

theorem splitFee_add (u : U64) (fee : Bix) :
    ((feeSplitForUtilization u).splitFee fee).1.toNat +
      ((feeSplitForUtilization u).splitFee fee).2.toNat = fee.toNat := by
  have hp := burnPercent_le u
  have hburn : ((feeSplitForUtilization u).splitFee fee).1.toNat ≤ fee.toNat := by
    simp only [FeeSplit.splitFee, BitVec.toNat_udiv, toNat_saturatingMul, BitVec.toNat_ofNat]
    generalize (feeSplitForUtilization u).burnPercent.toNat = percent at hp
    have hmul : fee.toNat * (percent % 2 ^ 128) ≤ fee.toNat * 100 :=
      Nat.mul_le_mul_left _ (le_trans (Nat.mod_le _ _) hp)
    have h100 : (100 : U128).toNat = 100 := rfl
    rw [h100]
    omega
  have hminer : ((feeSplitForUtilization u).splitFee fee).2.toNat =
      fee.toNat - ((feeSplitForUtilization u).splitFee fee).1.toNat := toNat_saturatingSub _ _
  omega

theorem toNat_settled {balance : U256} (tips pay : U128) (h : balance.toNat < 2 ^ 128) :
    (saturatingAdd (saturatingSub balance (tips.setWidth 256)) (pay.setWidth 256)).toNat =
      (balance.toNat - tips.toNat) + pay.toNat := by
  have hwide : ∀ v : U128, (v.setWidth 256).toNat = v.toNat :=
    fun v => BitVec.toNat_setWidth_of_le (by norm_num)
  have hpay := pay.isLt
  rw [toNat_saturatingAdd_of_lt, toNat_saturatingSub, hwide, hwide]
  rw [toNat_saturatingSub, hwide, hwide]
  omega

/-- The settlement pays the subsidy and the miner's share, and takes back the part of the
tips the beneficiary still holds. -/
theorem settle_total (header : BlockHeader) (parentTimestamp : U64) (p : EvmProgress)
    (hsmall : p.state.totalBalance < 2 ^ 128)
    (hcredit : (blockRewardForIntervalBix parentTimestamp header.timestampSeconds).toNat +
      p.grossFees.toNat < 2 ^ 128) :
    (settleBeneficiary header parentTimestamp p).totalBalance +
        min p.revmTips.toNat (p.state.balanceOf header.beneficiaryAddress) =
      p.state.totalBalance +
        (blockRewardForIntervalBix parentTimestamp header.timestampSeconds).toNat +
        ((feeSplitForUtilization
          (utilizationBasisPoints p.gasUsed header.gasLimit)).splitFee p.grossFees).2.toNat := by
  have hparts := splitFee_add (utilizationBasisPoints p.gasUsed header.gasLimit) p.grossFees
  have hle := p.state.balanceOf_le_totalBalance header.beneficiaryAddress
  unfold settleBeneficiary
  dsimp only
  generalize (feeSplitForUtilization (utilizationBasisPoints p.gasUsed
    header.gasLimit)).splitFee p.grossFees = shares at hparts ⊢
  generalize blockRewardForIntervalBix parentTimestamp header.timestampSeconds = reward at hcredit ⊢
  have hpay : (saturatingAdd reward shares.2).toNat = reward.toNat + shares.2.toNat :=
    toNat_saturatingAdd_of_lt (by omega)
  have hput := p.state.totalBalance_putAccount header.beneficiaryAddress
    { p.state.account header.beneficiaryAddress with
      balance := saturatingAdd
        (saturatingSub (p.state.account header.beneficiaryAddress).balance (p.revmTips.setWidth 256))
        ((saturatingAdd reward shares.2).setWidth 256) }
  rw [toNat_settled _ _ (hle.trans_lt hsmall), hpay] at hput
  simp only [RevmState.balanceOf] at hput ⊢
  omega

/-! ## The supply law -/

theorem toNat_feeOf (h : gasFee base q.1 q.2.gasUsed < 2 ^ 128) :
    (feeOf base q).toNat = gasFee base q.1 q.2.gasUsed := by
  have hgas : (q.2.gasUsed.setWidth 128).toNat = q.2.gasUsed.toNat :=
    BitVec.toNat_setWidth_of_le (by norm_num)
  rw [feeOf, toNat_saturatingMul_of_lt (by rwa [hgas]), hgas, gasFee]

theorem toNat_tipOf (h : gasFee base q.1 q.2.gasUsed < 2 ^ 128) :
    (tipOf base q).toNat =
      q.2.gasUsed.toNat * ((effectiveGasPrice q.1 base).toNat - base.toNat) := by
  have hgas : (q.2.gasUsed.setWidth 128).toNat = q.2.gasUsed.toNat :=
    BitVec.toNat_setWidth_of_le (by norm_num)
  have hle : q.2.gasUsed.toNat * ((effectiveGasPrice q.1 base).toNat - base.toNat) ≤
      gasFee base q.1 q.2.gasUsed := Nat.mul_le_mul_left _ (Nat.sub_le _ _)
  rw [tipOf, toNat_saturatingMul_of_lt (by rw [hgas, toNat_saturatingSub]; omega), hgas,
    toNat_saturatingSub]

theorem gasFee_le_totalFees (hq : q ∈ qs) : gasFee base q.1 q.2.gasUsed ≤ totalFees base qs :=
  List.single_le_sum (fun _ _ => Nat.zero_le _) _ (List.mem_map_of_mem hq)

theorem sum_feeOf (h : totalFees base qs < 2 ^ 128) :
    ((qs.map (feeOf base)).map BitVec.toNat).sum = totalFees base qs := by
  rw [List.map_map, totalFees]
  refine congrArg List.sum (List.map_congr_left ?_)
  intro q hq
  exact toNat_feeOf (lt_of_le_of_lt (gasFee_le_totalFees hq) h)

theorem sum_tipOf (h : totalFees base qs < 2 ^ 128)
    (hprice : ∀ q ∈ qs, base.toNat ≤ (effectiveGasPrice q.1 base).toNat) :
    ((qs.map (tipOf base)).map BitVec.toNat).sum + totalBaseFees base qs = totalFees base qs := by
  rw [List.map_map, totalFees, totalBaseFees, ← List.sum_map_add]
  refine congrArg List.sum (List.map_congr_left ?_)
  intro q hq
  rw [Function.comp_apply, toNat_tipOf (lt_of_le_of_lt (gasFee_le_totalFees hq) h), ← Nat.mul_add,
    Nat.sub_add_cancel (hprice q hq), gasFee]

theorem BlockRun.toNat_grossFees (hrun : BlockRun R moved header txs { state := S } p rs)
    (h : totalFees header.baseFeePerGas (txs.zip rs) < 2 ^ 128) :
    p.grossFees.toNat = totalFees header.baseFeePerGas (txs.zip rs) := by
  have hsum := sum_feeOf h
  have hfold := toNat_foldl_saturatingAdd_of_lt ((txs.zip rs).map (feeOf header.baseFeePerGas)) 0
    (by rw [hsum]; simpa using h)
  rw [hrun.grossFees, hfold, hsum]
  simp

theorem BlockRun.toNat_revmTips (hrun : BlockRun R moved header txs { state := S } p rs)
    (h : totalFees header.baseFeePerGas (txs.zip rs) < 2 ^ 128) :
    p.revmTips.toNat + totalBaseFees header.baseFeePerGas (txs.zip rs) =
      totalFees header.baseFeePerGas (txs.zip rs) := by
  have hsum := sum_tipOf h hrun.price
  have hzero : (0 : U128).toNat = 0 := rfl
  have hfold := toNat_foldl_saturatingAdd_of_lt ((txs.zip rs).map (tipOf header.baseFeePerGas)) 0
    (by omega)
  rw [hrun.revmTips, hfold]
  omega

theorem BlockRun.burned_eq (hrun : BlockRun R moved block.header block.transactions { state := S } p rs)
    (parentTimestamp : U64) :
    (blockSupplyDelta (block.withReceipts rs) parentTimestamp).2 =
      ((feeSplitForUtilization
        (utilizationBasisPoints p.gasUsed block.header.gasLimit)).splitFee p.grossFees).1 := by
  rw [hrun.gasUsed, hrun.grossFees]
  rfl

theorem executeEvmStateTransitionInPlace_ok {sim : EvmSimulation}
    (h : executeEvmStateTransitionInPlace O R S block parentTimestamp = .ok sim) :
    ∃ p, block.transactions.foldlM (evmTransactionStep O R block.header) { state := S } = .ok p ∧
      p.gasUsed.toNat ≤ block.header.gasLimit.toNat ∧
      sim = ⟨settleBeneficiary block.header parentTimestamp p, p.receipts, p.gasUsed⟩ := by
  simp only [executeEvmStateTransitionInPlace, bind_eq_ok] at h
  obtain ⟨p, hloop, hrest⟩ := h
  simp only [throw_bind, ite_throw_eq_ok, pure_eq_ok, not_lt] at hrest
  exact ⟨p, hloop, hrest.1, hrest.2.symm⟩

/-- **No sum reaches `2 ^ 128`**: neither the total of the balances with the subsidy added
nor the block's fees with the subsidy added. -/
structure SumsFit (S : RevmState) (block : Block) (parentTimestamp : U64) : Prop where
  supply : S.totalBalance + (blockSupplyDelta block parentTimestamp).1.toNat < 2 ^ 128
  fees : totalFees block.header.baseFeePerGas (block.transactions.zip block.receipts) +
    (blockSupplyDelta block parentTimestamp).1.toNat < 2 ^ 128

/-- **The supply law of a contract block**, for every executor that only moves value: the sum of all
balances grows by the subsidy less the burned fees exactly when the transactions do not take more out
of the beneficiary's account than it held before the block. Otherwise the clamped subtraction of the
tips leaves value that nobody paid. -/
theorem contract_block_supply_iff (hR : MovesValue R moved) {S : RevmState} {sim : EvmSimulation}
    (hok : executeEvmStateTransitionInPlace O R S block parentTimestamp = .ok sim)
    (hfit : SumsFit S (block.withReceipts sim.receipts) parentTimestamp) :
    (sim.state.totalBalance +
        (blockSupplyDelta (block.withReceipts sim.receipts) parentTimestamp).2.toNat =
      S.totalBalance +
        (blockSupplyDelta (block.withReceipts sim.receipts) parentTimestamp).1.toNat) ↔
      beneficiaryOutlay R moved block.header S block.transactions ≤
        S.balanceOf block.header.beneficiaryAddress := by
  obtain ⟨p, hloop, -, rfl⟩ := executeEvmStateTransitionInPlace_ok hok
  obtain ⟨rs, hrun⟩ := blockRun_of_foldlM hR hloop
  obtain ⟨hsupply, hfees⟩ := hfit
  have hreceipts : p.receipts = rs := hrun.receipts
  have hsubsidy : (blockSupplyDelta (block.withReceipts rs) parentTimestamp).1 =
    blockRewardForIntervalBix parentTimestamp block.header.timestampSeconds := rfl
  simp only [hreceipts, hsubsidy, hrun.burned_eq, Block.header_withReceipts,
    Block.transactions_withReceipts, Block.receipts_withReceipts] at hsupply hfees ⊢
  have hfit : totalFees block.header.baseFeePerGas (block.transactions.zip rs) < 2 ^ 128 := by omega
  have hgross := hrun.toNat_grossFees hfit
  have htips := hrun.toNat_revmTips hfit
  have htotal := hrun.total
  have hben := hrun.beneficiary
  have hsplit := splitFee_add (utilizationBasisPoints p.gasUsed block.header.gasLimit) p.grossFees
  simp only at htotal hben
  have hsettle := settle_total block.header parentTimestamp p (by omega) (by omega)
  -- what the settlement takes back is the tips, or what the beneficiary still holds
  omega

/-! ## A beneficiary that spends its tips

An executor for calls that carry value and one zero byte of data, and a block in which the
beneficiary pays for a transaction of its own with the tip of the one before. -/

def callGas : U64 := 21010

/-- The balance of `a` after a call of `value` from `caller` to `to_`. -/
def callBalance (S : RevmState) (env : BlockEnv) (caller to_ : Address) (value fee : ℕ)
    (a : Address) : ℤ :=
  S.balanceOf a + ((if a = to_ then (value : ℤ) else 0) - if a = caller then (value : ℤ) else 0) -
    (if a = caller then (fee : ℤ) else 0) +
    if a = env.beneficiary then (fee : ℤ) - callGas.toNat * env.basefee.toNat else 0

def inRange (x : ℤ) : Bool := decide (0 ≤ x) && decide (x < 2 ^ 256)

def callChange (S : RevmState) (tx : TxEnv) (next : Address → ℤ) (a : Address) : AccountChange where
  selfdestructed := false
  nonce := if a = tx.caller then tx.nonce + 1 else (S.account a).nonce
  balance := BitVec.ofNat 256 (next a).toNat
  code := none
  storage := ∅

/-- The changes of the three accounts a call touches, which need not be different. -/
def callChanges (S : RevmState) (tx : TxEnv) (to_ beneficiary : Address) (next : Address → ℤ) :
    Changes :=
  (((∅ : Changes).insert tx.caller (callChange S tx next tx.caller)).insert to_
    (callChange S tx next to_)).insert beneficiary (callChange S tx next beneficiary)

def callRevm : Revm where
  transact _ S env tx :=
    match tx.kind with
    | .create => .error "creation is not supported"
    | .call to_ =>
      let price := minWord tx.maxFeePerGas
        (saturatingAdd (env.basefee.setWidth 128) (tx.gasPriorityFee.getD 0))
      let next := callBalance S env tx.caller to_ tx.value.toNat (callGas.toNat * price.toNat)
      if inRange (next tx.caller) && inRange (next to_) && inRange (next env.beneficiary) then
        .ok ({ success := true, gasUsed := callGas, output := [], logs := [] },
          callChanges S tx to_ env.beneficiary next)
      else .error "lack of funds"

def callMoved (_ : RevmState) (_ : BlockHeader) (t : Transaction) (a : Address) : ℤ :=
  match t.to_ with
  | some to_ =>
    (if a = to_ then (t.value.toNat : ℤ) else 0) - if a = t.from_ then (t.value.toNat : ℤ) else 0
  | none => 0

theorem getElem?_callChanges (S : RevmState) (tx : TxEnv) (to_ beneficiary : Address)
    (next : Address → ℤ) (a : Address) :
    (callChanges S tx to_ beneficiary next)[a]? =
      if a = tx.caller ∨ a = to_ ∨ a = beneficiary then some (callChange S tx next a) else none := by
  simp only [callChanges, Map.getElem?_insert_eq, Std.ExtTreeMap.getElem?_empty]
  by_cases hb : beneficiary = a
  · subst hb; simp
  · by_cases ht : to_ = a
    · subst ht; simp [hb]
    · by_cases hc : tx.caller = a
      · subst hc; simp [hb, ht]
      · simp [hb, ht, hc, Ne.symm hb, Ne.symm ht, Ne.symm hc]

theorem balanceOf_commit_callChanges {tx : TxEnv} {to_ beneficiary : Address} {next : Address → ℤ}
    (hother : ∀ a, a ≠ tx.caller → a ≠ to_ → a ≠ beneficiary → next a = S.balanceOf a)
    (hcaller : inRange (next tx.caller) = true) (hto : inRange (next to_) = true)
    (hben : inRange (next beneficiary) = true) (a : Address) :
    ((S.commit (callChanges S tx to_ beneficiary next)).balanceOf a : ℤ) = next a := by
  unfold RevmState.balanceOf RevmState.account
  rw [accounts_commit, getElem?_callChanges]
  by_cases ha : a = tx.caller ∨ a = to_ ∨ a = beneficiary
  · have hrange : 0 ≤ next a ∧ next a < 2 ^ 256 := by
      rcases ha with rfl | rfl | rfl
      · simpa [inRange] using hcaller
      · simpa [inRange] using hto
      · simpa [inRange] using hben
    have hlt : (next a).toNat < 2 ^ 256 := by omega
    rw [if_pos ha]
    simp only [Option.elim_some, committed, callChange, Bool.false_eq_true, if_false,
      Option.getD_some, toNat_ofNat_of_lt hlt]
    omega
  · rw [if_neg ha]
    simp only [not_or] at ha
    exact (hother a ha.1 ha.2.1 ha.2.2).symm

theorem blockEnv_ok {env : BlockEnv} (h : blockEnv header = .ok env) :
    env.beneficiary = header.beneficiaryAddress ∧
      env.basefee.toNat = header.baseFeePerGas.toNat ∧
      env.basefee.setWidth 128 = header.baseFeePerGas := by
  simp only [blockEnv, ite_else_throw_eq_ok, pure_eq_ok] at h
  obtain ⟨hlt, rfl⟩ := h
  have hbase : (header.baseFeePerGas.setWidth 64).toNat = header.baseFeePerGas.toNat := by
    rw [BitVec.toNat_setWidth, Nat.mod_eq_of_lt hlt]
  refine ⟨rfl, hbase, BitVec.eq_of_toNat_eq ?_⟩
  rw [BitVec.toNat_setWidth_of_le (by norm_num), hbase]

theorem callRevm_ok {S' : RevmState} {out : ExecutionOutput}
    (h : executeTransaction callRevm S header t = .ok (out, S')) :
    out.gasUsed = callGas ∧ ∃ env to_, blockEnv header = .ok env ∧ t.to_ = some to_ ∧
      ∀ a, (S'.balanceOf a : ℤ) = callBalance S env t.from_ to_ t.value.toNat
        (gasFee header.baseFeePerGas t callGas) a := by
  simp only [executeTransaction, bind_eq_ok] at h
  obtain ⟨env, henv, h⟩ := h
  cases hto : t.to_ with
  | none => simp [callRevm, txEnv, hto] at h
  | some to_ =>
    simp only [callRevm, txEnv, hto, (blockEnv_ok henv).2.2, Option.getD_some] at h
    split at h
    · next output changes heq =>
      split at heq
      · next hrange =>
        simp only [Bool.and_eq_true] at hrange
        obtain ⟨rfl, rfl⟩ := Prod.mk.inj (Except.ok.inj heq)
        obtain ⟨rfl, rfl⟩ := Prod.mk.inj (pure_eq_ok.mp h)
        refine ⟨rfl, env, to_, henv, rfl, ?_⟩
        have hvalue : (BitVec.setWidth 256 t.value).toNat = t.value.toNat :=
          BitVec.toNat_setWidth_of_le (by norm_num)
        rw [hvalue] at hrange ⊢
        refine balanceOf_commit_callChanges ?_ hrange.1.1 hrange.1.2 hrange.2
        intro a hc ht hb
        simp only [callBalance, if_neg hc, if_neg ht, if_neg hb]
        ring
      · cases heq
    · exact absurd h throw_ne_ok

theorem callRevm_movesValue : MovesValue callRevm callMoved where
  net_zero h := by
    obtain ⟨-, -, to_, -, hto, -⟩ := callRevm_ok h
    simp only [callMoved, hto, Finset.sum_sub_distrib, Finset.sum_ite_eq', Finset.mem_univ, if_true,
      sub_self]
  balance_eq h a := by
    obtain ⟨hgas, env, to_, henv, hto, hbal⟩ := callRevm_ok h
    obtain ⟨hben, hfee, -⟩ := blockEnv_ok henv
    rw [hbal a, callBalance, hgas, hben, hfee]
    simp only [callMoved, hto]

def alice : Address := 0xa1
def miner : Address := 0xb2
def carol : Address := 0xc3

def callTransaction (sender : Address) (maxFee priorityFee : Bix) : Transaction where
  chainId := mainnetChainId
  transactionType := 2
  nonce := 0
  from_ := sender
  to_ := some carol
  value := 0
  gasLimit := callGas
  maxFeePerGas := maxFee
  maxPriorityFeePerGas := priorityFee
  payload := [0]
  accessList := []
  signature := none
  externalHash := none

/-- Alice tips the miner one base fee for each unit of gas, then the miner sends a call at
the base fee. -/
def spentTipsBlock : Block where
  header := { genesisHeader zeroOracle with
    number := 1, timestampSeconds := 30, beneficiary := 0xb2 }
  transactions := [callTransaction alice 2000000000 1000000000, callTransaction miner 1000000000 0]
  receipts := []

def richAlice : RevmState where
  accounts := (∅ : Map Address RevmAccount).insert alice { balance := 1000000000000000000 }

def keptTipsBlock : Block :=
  { spentTipsBlock with transactions := [callTransaction alice 2000000000 1000000000] }

/-- Whether the sums of a block fit, and by how much the total of the balances after it
exceeds what the supply delta accounts for. -/
def supplyExcess (S : RevmState) (block : Block) (parentTimestamp : U64) : Option (Bool × ℤ) :=
  match executeEvmStateTransitionInPlace zeroOracle callRevm S block parentTimestamp with
  | .ok sim =>
    let block := block.withReceipts sim.receipts
    let (subsidy, burned) := blockSupplyDelta block parentTimestamp
    some (decide (S.totalBalance + subsidy.toNat < 2 ^ 128 ∧
        totalFees block.header.baseFeePerGas (block.transactions.zip block.receipts) +
          subsidy.toNat < 2 ^ 128),
      (sim.state.totalBalance + burned.toNat : ℤ) - (S.totalBalance + subsidy.toNat))
  | .error _ => none

theorem of_supplyExcess {excess : ℤ}
    (h : supplyExcess S block parentTimestamp = some (true, excess)) :
    ∃ sim, executeEvmStateTransitionInPlace zeroOracle callRevm S block parentTimestamp = .ok sim ∧
      SumsFit S (block.withReceipts sim.receipts) parentTimestamp ∧ (sim.state.totalBalance : ℤ) +
          (blockSupplyDelta (block.withReceipts sim.receipts) parentTimestamp).2.toNat =
        S.totalBalance +
          (blockSupplyDelta (block.withReceipts sim.receipts) parentTimestamp).1.toNat +
          excess := by
  unfold supplyExcess at h
  split at h
  · next sim hsim =>
    simp only [Option.some_inj, Prod.mk.injEq, decide_eq_true_eq] at h
    exact ⟨sim, hsim, ⟨h.1.1, h.1.2⟩, by linarith [h.2]⟩
  · cases h

/-- The miner's own transaction leaves the tip it was paid for uncollected: the total grows
by it. -/
theorem spentTips_create_value :
    MovesValue callRevm callMoved ∧ spentTipsBlock.transactions.any isEvmTransaction = true ∧
      ∃ sim, executeEvmStateTransitionInPlace zeroOracle callRevm richAlice spentTipsBlock 0 =
          .ok sim ∧
        SumsFit richAlice (spentTipsBlock.withReceipts sim.receipts) 0 ∧
        sim.state.totalBalance +
            (blockSupplyDelta (spentTipsBlock.withReceipts sim.receipts) 0).2.toNat ≠
          richAlice.totalBalance +
            (blockSupplyDelta (spentTipsBlock.withReceipts sim.receipts) 0).1.toNat := by
  refine ⟨callRevm_movesValue, rfl, ?_⟩
  have hrun : supplyExcess richAlice spentTipsBlock 0 = some (true, 21010000000000) := by
    decide +kernel
  obtain ⟨sim, hok, hfit, hexcess⟩ := of_supplyExcess hrun
  exact ⟨sim, hok, hfit, by omega⟩

theorem contract_block_supply_keptTips :
    ∃ sim, executeEvmStateTransitionInPlace zeroOracle callRevm richAlice keptTipsBlock 0 = .ok sim ∧
      ((sim.state.totalBalance +
          (blockSupplyDelta (keptTipsBlock.withReceipts sim.receipts) 0).2.toNat =
        richAlice.totalBalance +
          (blockSupplyDelta (keptTipsBlock.withReceipts sim.receipts) 0).1.toNat) ↔
        beneficiaryOutlay callRevm callMoved keptTipsBlock.header richAlice
            keptTipsBlock.transactions ≤
          richAlice.balanceOf keptTipsBlock.header.beneficiaryAddress) := by
  have hrun : supplyExcess richAlice keptTipsBlock 0 = some (true, 0) := by decide +kernel
  obtain ⟨sim, hok, hfit, -⟩ := of_supplyExcess hrun
  exact ⟨sim, hok, contract_block_supply_iff callRevm_movesValue hok hfit⟩

end Blq
