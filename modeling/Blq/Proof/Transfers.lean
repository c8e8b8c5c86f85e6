import Blq.Proof.Supply

/-!
# The supply law of plain-transfer blocks

The ledger burns a share of every single fee, the supply index a share of all fees together, and
both round down.

* `transferStep_ok`: one transfer takes its fee out of the sum of all balances.
* `transferRun_of_foldlM`: the whole block, by induction over the transactions.
* `plain_block_supply_iff`: the sum of all balances moves by the subsidy less what the supply
  index reports as burned exactly when the burned shares of the fees add up to the burned share
  of their sum.
* `burned_shares_add_iff`: this is a matter of the remainders, which must stay below one unit.
-/

namespace Blq

open Word Result

variable (accounts : NativeAccounts) (a : Address)

def nativeTotal : ℕ := Map.total (fun e => e.1.toNat) accounts

def nativeBalance : ℕ :=
  ((accounts[a]?).getD (0, 0)).1.toNat

theorem elim_nativeBalance :
    (accounts[a]?).elim 0 (fun e => e.1.toNat) = nativeBalance accounts a := by
  unfold nativeBalance
  cases accounts[a]? with
  | none => rfl
  | some e => rfl

theorem nativeTotal_insert (e : Bix × U64) :
    nativeTotal (accounts.insert a e) + nativeBalance accounts a =
      nativeTotal accounts + e.1.toNat := by
  have h := Map.total_insert (fun e : Bix × U64 => e.1.toNat) accounts a e
  rwa [elim_nativeBalance] at h

theorem nativeBalance_le_total : nativeBalance accounts a ≤ nativeTotal accounts := by
  rw [nativeTotal, Map.total_eq_sum, ← elim_nativeBalance]
  exact Finset.single_le_sum (f := fun a => (accounts[a]?).elim 0 fun e => e.1.toNat)
    (fun _ _ => Nat.zero_le _) (Finset.mem_univ a)

theorem nativeTotal_credit (amount : Bix) (hfit : nativeBalance accounts a + amount.toNat < 2 ^ 128) :
    nativeTotal (Map.entry accounts a (0, 0) fun e => (saturatingAdd e.1 amount, e.2)) =
      nativeTotal accounts + amount.toNat := by
  have h := nativeTotal_insert accounts a
    (saturatingAdd ((accounts[a]?).getD (0, 0)).1 amount, ((accounts[a]?).getD (0, 0)).2)
  have hsum : (saturatingAdd ((accounts[a]?).getD (0, 0)).1 amount).toNat =
      nativeBalance accounts a + amount.toNat := toNat_saturatingAdd_of_lt hfit
  rw [hsum] at h
  show nativeTotal (accounts.insert a (saturatingAdd ((accounts[a]?).getD (0, 0)).1 amount, _)) = _
  omega

/-! ## Fees -/

/-- The fee of a plain transfer, which uses all of its gas limit. -/
def transferFee (base : Bix) (t : Transaction) : U128 :=
  saturatingMul (t.gasLimit.setWidth 128) (effectiveGasPrice t base)

/-- The part of a fee that is burned: a percentage, clamped and rounded down. -/
def burnedShare (percent fee : ℕ) : ℕ := min (fee * percent) (2 ^ 128 - 1) / 100

theorem toNat_splitFee_fst (split : FeeSplit) (fee : Bix) :
    (split.splitFee fee).1.toNat = burnedShare split.burnPercent.toNat fee.toNat := by
  have hpercent : (BitVec.ofNat 128 split.burnPercent.toNat).toNat = split.burnPercent.toNat := by
    rw [BitVec.toNat_ofNat]
    exact Nat.mod_eq_of_lt (lt_trans split.burnPercent.toNat_lt (by norm_num))
  have h100 : (100 : U128).toNat = 100 := rfl
  simp only [FeeSplit.splitFee, BitVec.toNat_udiv, toNat_saturatingMul, hpercent, h100, burnedShare]

theorem hundred_mul_sum_shares (percent : ℕ) (fees : List ℕ) :
    100 * (fees.map fun fee => fee * percent / 100).sum +
      (fees.map fun fee => fee * percent % 100).sum = fees.sum * percent := by
  induction fees with
  | nil => simp
  | cons fee fees ih =>
    simp only [List.map_cons, List.sum_cons, Nat.add_mul]
    have := Nat.div_add_mod (fee * percent) 100
    omega

theorem burnedShare_of_lt {percent fee : ℕ} (h : fee * percent < 2 ^ 128) :
    burnedShare percent fee = fee * percent / 100 := by
  rw [burnedShare, Nat.min_eq_left (by omega)]

/-- **The shares add up exactly when the remainders stay below one unit.** -/
theorem burned_shares_add_iff {percent : ℕ} {fees : List ℕ} (h : fees.sum * percent < 2 ^ 128) :
    (fees.map (burnedShare percent)).sum = burnedShare percent fees.sum ↔
      (fees.map fun fee => fee * percent % 100).sum < 100 := by
  have hparts : fees.map (burnedShare percent) = fees.map fun fee => fee * percent / 100 := by
    refine List.map_congr_left fun fee hfee => burnedShare_of_lt (lt_of_le_of_lt ?_ h)
    exact Nat.mul_le_mul_right _ (List.single_le_sum (fun _ _ => Nat.zero_le _) _ hfee)
  have hsum := hundred_mul_sum_shares percent fees
  rw [hparts, burnedShare_of_lt h]
  omega

/-! ## The loop -/

section Loop

variable {O : Oracle} {header : BlockHeader} {split : FeeSplit}

/-- **One transfer takes its fee out of the sum of all balances.** -/
theorem transferStep_ok {p p' : TransferProgress} {t : Transaction}
    (h : transferStep O header split p t = .ok p')
    (hcost : t.value.toNat + (transferFee header.baseFeePerGas t).toNat < 2 ^ 128)
    (hfit : nativeTotal p.accounts < 2 ^ 128) :
    nativeTotal p'.accounts + (transferFee header.baseFeePerGas t).toNat = nativeTotal p.accounts ∧
      p'.minerFees = saturatingAdd p.minerFees (split.splitFee (transferFee header.baseFeePerGas t)).2 ∧
      ∃ receipt, p'.receipts = p.receipts ++ [receipt] ∧ receipt.gasUsed = t.gasLimit := by
  simp only [transferStep, bind_eq_ok] at h
  obtain ⟨_, -, _, -, h⟩ := h
  split at h
  next to_ hto =>
    simp only [throw_bind, ite_throw_eq_ok, pure_eq_ok, not_lt] at h
    obtain ⟨-, hbalance, rfl⟩ := h
    refine ⟨?_, rfl, _, rfl, rfl⟩
    let cost := saturatingAdd t.value (transferFee header.baseFeePerGas t)
    let sender := (p.accounts[t.from_]?).getD (0, 0)
    let debited := p.accounts.insert t.from_ (sender.1 - cost, saturatingAdd sender.2 1)
    have hcosts : cost.toNat = t.value.toNat + (transferFee header.baseFeePerGas t).toNat :=
      toNat_saturatingAdd_of_lt hcost
    have hpaid : cost.toNat ≤ sender.1.toNat := hbalance
    have hdebit : nativeTotal debited + sender.1.toNat =
        nativeTotal p.accounts + (sender.1 - cost).toNat := nativeTotal_insert p.accounts t.from_ _
    rw [BitVec.toNat_sub_of_le (BitVec.le_def.mpr hpaid)] at hdebit
    have hle := nativeBalance_le_total debited to_
    have hcredit := nativeTotal_credit debited to_ t.value (by omega)
    show nativeTotal (Map.entry debited to_ (0, 0) fun e => (saturatingAdd e.1 t.value, e.2)) + _ = _
    omega
  next => exact absurd h throw_ne_ok

/-- What the loop over a block's transfers does, `rs` being the receipts it adds. -/
structure TransferRun (header : BlockHeader) (split : FeeSplit) (txs : List Transaction)
    (p p' : TransferProgress) (rs : List Receipt) : Prop where
  total : nativeTotal p'.accounts +
    (txs.map fun t => (transferFee header.baseFeePerGas t).toNat).sum = nativeTotal p.accounts
  minerFees : p'.minerFees = (txs.map fun t =>
    (split.splitFee (transferFee header.baseFeePerGas t)).2).foldl saturatingAdd p.minerFees
  receipts : p'.receipts = p.receipts ++ rs
  gas : rs.map Receipt.gasUsed = txs.map Transaction.gasLimit

theorem transferRun_of_foldlM {txs : List Transaction} {p p' : TransferProgress}
    (h : txs.foldlM (transferStep O header split) p = .ok p')
    (hcost : ∀ t ∈ txs, t.value.toNat + (transferFee header.baseFeePerGas t).toNat < 2 ^ 128)
    (hfit : nativeTotal p.accounts < 2 ^ 128) : ∃ rs, TransferRun header split txs p p' rs := by
  induction txs generalizing p with
  | nil =>
    obtain rfl := pure_eq_ok.mp h
    exact ⟨[], by simp, by simp, by simp, by simp⟩
  | cons t txs ih =>
    rw [List.foldlM_cons] at h
    obtain ⟨q, hstep, hrest⟩ := bind_eq_ok.mp h
    obtain ⟨htotal, hminer, receipt, hreceipts, hgas⟩ := transferStep_ok hstep (hcost t (by simp)) hfit
    obtain ⟨rs, hrun⟩ := ih hrest (fun t ht => hcost t (List.mem_cons_of_mem _ ht)) (by omega)
    refine ⟨receipt :: rs, ?_, ?_, ?_, ?_⟩
    · have := hrun.total
      simp only [List.map_cons, List.sum_cons]
      omega
    · rw [hrun.minerFees, hminer]
      rfl
    · rw [hrun.receipts, hreceipts]
      simp
    · simp [hgas, hrun.gas]

end Loop

/-! ## The block -/

section Block

variable {O : Oracle}

theorem foldlM_addGas {gas : List U64} {total sum : U64} (h : gas.foldlM addGas total = .ok sum) :
    sum = gas.foldl (· + ·) total := by
  induction gas generalizing total with
  | nil => exact (pure_eq_ok.mp h).symm
  | cons g gas ih =>
    rw [List.foldlM_cons] at h
    obtain ⟨next, hnext, hrest⟩ := bind_eq_ok.mp h
    rw [ih hrest, addGas_ok hnext]
    rfl

/-- The percentage of the fees a block burns, from the gas limits of its transactions. -/
def Block.burnPercent (block : Block) : ℕ :=
  (feeSplitForUtilization (utilizationBasisPoints
    ((block.transactions.map Transaction.gasLimit).foldl (· + ·) 0)
    block.header.gasLimit)).burnPercent.toNat

def Block.transferFees (block : Block) : List ℕ :=
  block.transactions.map fun t => (transferFee block.header.baseFeePerGas t).toNat

theorem simulateStateTransitionFromAccounts_ok {accounts accounts' : NativeAccounts} {block : Block}
    {parentTimestamp : U64} {receipts : List Receipt} {gasUsed : U64}
    (h : simulateStateTransitionFromAccounts O accounts block parentTimestamp =
      .ok (accounts', receipts, gasUsed)) :
    ∃ split p, split.burnPercent.toNat = block.burnPercent ∧
      (∃ u, split = feeSplitForUtilization u) ∧
      block.transactions.foldlM (transferStep O block.header split) { accounts := accounts } = .ok p ∧
      receipts = p.receipts ∧
      accounts' = if (saturatingAdd (blockRewardForIntervalBix parentTimestamp
          block.header.timestampSeconds) p.minerFees).toNat > 0 then
        Map.entry p.accounts block.header.beneficiaryAddress (0, 0) fun e =>
          (saturatingAdd e.1 (saturatingAdd (blockRewardForIntervalBix parentTimestamp
            block.header.timestampSeconds) p.minerFees), e.2)
        else p.accounts := by
  simp only [simulateStateTransitionFromAccounts, bind_eq_ok, throw_bind, ite_throw_eq_ok,
    pure_eq_ok, Prod.mk.injEq] at h
  obtain ⟨gas, hgas, -, p, hloop, haccounts, hreceipts, -⟩ := h
  refine ⟨_, p, ?_, ⟨_, rfl⟩, hloop, hreceipts.symm, haccounts.symm⟩
  rw [Block.burnPercent, foldlM_addGas hgas]

theorem map_feeOf_zip (base : Bix) {txs : List Transaction} {rs : List Receipt}
    (h : rs.map Receipt.gasUsed = txs.map Transaction.gasLimit) :
    (txs.zip rs).map (feeOf base) = txs.map (transferFee base) := by
  induction txs generalizing rs with
  | nil => simp
  | cons t txs ih =>
    cases rs with
    | nil => exact absurd h (by simp)
    | cons r rs =>
      simp only [List.map_cons, List.cons.injEq] at h
      rw [List.zip_cons_cons, List.map_cons, List.map_cons, ih h.2]
      congr 1
      unfold feeOf transferFee
      rw [h.1]

theorem sum_splitFee (u : U64) (fees : List U128) :
    ((fees.map fun fee => ((feeSplitForUtilization u).splitFee fee).2).map BitVec.toNat).sum +
      ((fees.map BitVec.toNat).map
        (burnedShare (feeSplitForUtilization u).burnPercent.toNat)).sum =
      (fees.map BitVec.toNat).sum := by
  induction fees with
  | nil => simp
  | cons fee fees ih =>
    have h := splitFee_add u fee
    rw [toNat_splitFee_fst] at h
    simp only [List.map_cons, List.sum_cons]
    omega

/-- **The supply law of a plain-transfer block**, while no transaction's cost is clamped: the sum of all
balances grows by the subsidy less what the supply index reports as burned exactly when the burned
shares of the single fees add up to the burned share of their sum. -/
theorem plain_block_supply_iff {accounts accounts' : NativeAccounts} {block : Block}
    {parentTimestamp : U64} {receipts : List Receipt} {gasUsed : U64}
    (hok : simulateStateTransitionFromAccounts O accounts block parentTimestamp =
      .ok (accounts', receipts, gasUsed))
    (hfit : nativeTotal accounts +
      (blockRewardForIntervalBix parentTimestamp block.header.timestampSeconds).toNat < 2 ^ 128)
    (hcost : ∀ t ∈ block.transactions,
      t.value.toNat + (transferFee block.header.baseFeePerGas t).toNat < 2 ^ 128) :
    nativeTotal accounts' +
        (blockSupplyDelta (block.withReceipts receipts) parentTimestamp).2.toNat =
      nativeTotal accounts +
        (blockSupplyDelta (block.withReceipts receipts) parentTimestamp).1.toNat ↔
      (block.transferFees.map (burnedShare block.burnPercent)).sum =
        burnedShare block.burnPercent block.transferFees.sum := by
  obtain ⟨split, p, hpercent, ⟨u, rfl⟩, hloop, rfl, haccounts⟩ :=
    simulateStateTransitionFromAccounts_ok hok
  obtain ⟨rs, hrun⟩ := transferRun_of_foldlM hloop hcost (by simp only; omega)
  have hreceipts : p.receipts = rs := hrun.receipts
  have htotal := hrun.total
  set reward := blockRewardForIntervalBix parentTimestamp block.header.timestampSeconds with hreward
  set fees := block.transactions.map (transferFee block.header.baseFeePerGas) with hfees
  have hsum : block.transferFees = fees.map BitVec.toNat := by
    rw [hfees, List.map_map]
    rfl
  have htotal' : nativeTotal p.accounts + block.transferFees.sum = nativeTotal accounts := htotal
  -- the two ways of adding the fees up
  have hgross : (fees.foldl saturatingAdd 0).toNat = block.transferFees.sum := by
    rw [toNat_foldl_saturatingAdd_of_lt, hsum]
    · simp
    · rw [← hsum]
      have : (0 : U128).toNat = 0 := rfl
      omega
  have hsplit := sum_splitFee u fees
  rw [← hsum, hpercent] at hsplit
  have hminer : p.minerFees.toNat + (block.transferFees.map (burnedShare block.burnPercent)).sum =
      block.transferFees.sum := by
    have hfold : p.minerFees = (fees.map fun fee =>
        ((feeSplitForUtilization u).splitFee fee).2).foldl saturatingAdd 0 := by
      rw [hfees, List.map_map]
      exact hrun.minerFees
    rw [hfold, toNat_foldl_saturatingAdd_of_lt]
    · have : (0 : U128).toNat = 0 := rfl
      omega
    · have : (0 : U128).toNat = 0 := rfl
      omega
  have hburned : (blockSupplyDelta (block.withReceipts p.receipts) parentTimestamp).2.toNat =
      burnedShare block.burnPercent block.transferFees.sum := by
    rw [hreceipts]
    have hzip := map_feeOf_zip block.header.baseFeePerGas hrun.gas
    show (FeeSplit.splitFee (feeSplitForUtilization (utilizationBasisPoints
      ((rs.map Receipt.gasUsed).foldl (· + ·) 0) block.header.gasLimit))
      (((block.transactions.zip rs).map (feeOf block.header.baseFeePerGas)).foldl saturatingAdd 0)).1.toNat
      = _
    rw [hzip, hrun.gas, toNat_splitFee_fst, ← hfees, hgross]
    rfl
  have hsubsidy : (blockSupplyDelta (block.withReceipts p.receipts) parentTimestamp).1 = reward := rfl
  -- the beneficiary's credit fits
  have hcredit : (saturatingAdd reward p.minerFees).toNat = reward.toNat + p.minerFees.toNat :=
    toNat_saturatingAdd_of_lt (by omega)
  have hafter : nativeTotal accounts' = nativeTotal p.accounts + (reward.toNat + p.minerFees.toNat) := by
    rw [haccounts]
    split
    next =>
      have hle := nativeBalance_le_total p.accounts block.header.beneficiaryAddress
      rw [nativeTotal_credit _ _ _ (by omega), hcredit]
    next hzero => omega
  rw [hafter, hburned, hsubsidy]
  omega

end Block

/-! ## Two fees that are rounded apart -/

/-- A transfer of one unit at a price one above the base fee, with eleven gas to spare. -/
def oddTransfer (nonce : U64) : Transaction where
  chainId := mainnetChainId
  transactionType := 2
  nonce := nonce
  from_ := alice
  to_ := some carol
  value := 1
  gasLimit := 21011
  maxFeePerGas := 1000000001
  maxPriorityFeePerGas := 1
  payload := []
  accessList := []
  signature := none
  externalHash := none

def transferBlock (transactions : List Transaction) : Block where
  header := { genesisHeader zeroOracle with
    number := 1, timestampSeconds := 30, beneficiary := 0xb2 }
  transactions := transactions
  receipts := []

def fundedAccounts : NativeAccounts := (∅ : NativeAccounts).insert alice (1000000000000000000, 0)

/-- **The supply index burns a unit that the ledger does not**: the remainders of two fees make
up one unit. -/
theorem rounding_loses_track_of_supply :
    ∃ accounts' receipts gasUsed,
      simulateStateTransitionFromAccounts zeroOracle fundedAccounts
        (transferBlock [oddTransfer 0, oddTransfer 1]) 0 = .ok (accounts', receipts, gasUsed) ∧
      nativeTotal fundedAccounts + 50000000000000000 < 2 ^ 128 ∧
      nativeTotal accounts' + (blockSupplyDelta
          ((transferBlock [oddTransfer 0, oddTransfer 1]).withReceipts receipts) 0).2.toNat =
        nativeTotal fundedAccounts + (blockSupplyDelta
          ((transferBlock [oddTransfer 0, oddTransfer 1]).withReceipts receipts) 0).1.toNat + 1 := by
  have hcheck : (match simulateStateTransitionFromAccounts zeroOracle fundedAccounts
      (transferBlock [oddTransfer 0, oddTransfer 1]) 0 with
    | .ok (accounts', receipts, _) => decide (nativeTotal accounts' + (blockSupplyDelta
          ((transferBlock [oddTransfer 0, oddTransfer 1]).withReceipts receipts) 0).2.toNat =
        nativeTotal fundedAccounts + (blockSupplyDelta
          ((transferBlock [oddTransfer 0, oddTransfer 1]).withReceipts receipts) 0).1.toNat + 1)
    | .error _ => false) = true := by decide +kernel
  split at hcheck
  next accounts' receipts gasUsed hok =>
    exact ⟨accounts', receipts, gasUsed, hok, by decide +kernel, of_decide_eq_true hcheck⟩
  next => exact absurd hcheck Bool.false_ne_true

/-- One fee alone is rounded once. -/
theorem one_fee_keeps_track_of_supply :
    ∃ accounts' receipts gasUsed,
      simulateStateTransitionFromAccounts zeroOracle fundedAccounts
        (transferBlock [oddTransfer 0]) 0 = .ok (accounts', receipts, gasUsed) ∧
      nativeTotal accounts' + (blockSupplyDelta
          ((transferBlock [oddTransfer 0]).withReceipts receipts) 0).2.toNat =
        nativeTotal fundedAccounts + (blockSupplyDelta
          ((transferBlock [oddTransfer 0]).withReceipts receipts) 0).1.toNat := by
  have hcheck : (simulateStateTransitionFromAccounts zeroOracle fundedAccounts
      (transferBlock [oddTransfer 0]) 0 matches .ok _) = true := by decide +kernel
  split at hcheck
  next result hok =>
    obtain ⟨accounts', receipts, gasUsed⟩ := result
    refine ⟨accounts', receipts, gasUsed, hok, ?_⟩
    refine (plain_block_supply_iff hok (by decide +kernel) (by decide +kernel)).mpr ?_
    exact (burned_shares_add_iff (by decide +kernel)).mpr (by decide +kernel)
  next => exact absurd hcheck Bool.false_ne_true

end Blq
