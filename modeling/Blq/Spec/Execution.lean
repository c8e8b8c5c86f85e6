import Blq.Spec.Evm
import Blq.Spec.Storage

/-!
# Block execution (`blq-node`)

A block with a contract transaction is executed by the EVM on the whole state
(`executeEvmStateTransitionInPlace`), any other block by the node's own transfer rule on
balances and nonces (`simulateStateTransitionFromAccounts`). Block building, the check of
a received block and the insertion of a block into the database all run one of the two.

`NodeStorage` is the full node's database; a header-only node executes nothing.
-/

namespace Blq

open Word

variable (O : Oracle) (R : Revm)

def isEvmTransaction (transaction : Transaction) : Bool :=
  transaction.to_.isNone || !transaction.payload.isEmpty

/-- The price a transaction pays for a unit of gas. -/
def effectiveGasPrice (transaction : Transaction) (baseFeePerGas : Bix) : U128 :=
  minWord transaction.maxFeePerGas (saturatingAdd baseFeePerGas transaction.maxPriorityFeePerGas)

/-- `checked_add` of gas amounts. -/
def addGas (total gas : U64) : Except NodeError U64 :=
  match checkedAdd total gas with
  | some sum => pure sum
  | none => throw (.bail "block gas overflow")

/-! ## Contract blocks -/

/-- The variables of the loop over a contract block's transactions. -/
structure EvmProgress where
  state : RevmState
  gasUsed : U64 := 0
  receipts : List Receipt := []
  grossFees : U128 := 0
  revmTips : U128 := 0

/-- One turn of the loop. -/
def evmTransactionStep (header : BlockHeader) (p : EvmProgress) (transaction : Transaction) :
    Except NodeError EvmProgress := do
  liftConsensus (validateTransactionFee transaction header.baseFeePerGas)
  let (output, state) ← executeTransaction R p.state header transaction
  let gasUsed ← addGas p.gasUsed output.gasUsed
  let price := effectiveGasPrice transaction header.baseFeePerGas
  let gas := output.gasUsed.setWidth 128
  pure
    { state := state
      gasUsed := gasUsed
      receipts := p.receipts ++
        [{ transactionHash := transaction.rpcHash O
           success := output.success
           gasUsed := output.gasUsed
           logsRoot := logsRoot O output.logs
           logs := output.logs }]
      grossFees := saturatingAdd p.grossFees (saturatingMul gas price)
      revmTips := saturatingAdd p.revmTips
        (saturatingMul gas (saturatingSub price header.baseFeePerGas)) }

/-- The tips the EVM has credited are taken back from the beneficiary, then the subsidy and
the miner's share of the fees are paid. -/
def settleBeneficiary (header : BlockHeader) (parentTimestamp : U64) (p : EvmProgress) : RevmState :=
  let split := feeSplitForUtilization (utilizationBasisPoints p.gasUsed header.gasLimit)
  let minerFee := (split.splitFee p.grossFees).2
  let beneficiary := header.beneficiaryAddress
  let account := p.state.account beneficiary
  let reward := blockRewardForIntervalBix parentTimestamp header.timestampSeconds
  p.state.putAccount beneficiary
    { account with
      balance := saturatingAdd (saturatingSub account.balance (p.revmTips.setWidth 256))
        ((saturatingAdd reward minerFee).setWidth 256) }

structure EvmSimulation where
  state : RevmState
  receipts : List Receipt
  gasUsed : U64

def executeEvmStateTransitionInPlace (state : RevmState) (block : Block) (parentTimestamp : U64) :
    Except NodeError EvmSimulation := do
  let p ← block.transactions.foldlM (evmTransactionStep O R block.header) { state := state }
  if p.gasUsed.toNat > block.header.gasLimit.toNat then
    throw (.bail "block gas used exceeds gas limit")
  pure
    { state := settleBeneficiary block.header parentTimestamp p
      receipts := p.receipts
      gasUsed := p.gasUsed }

def simulateEvmStateTransitionFromState (state : RevmState) (block : Block)
    (parentTimestamp : U64) : Except NodeError EvmSimulation :=
  executeEvmStateTransitionInPlace O R state block parentTimestamp

/-- What a block adds to the supply and what it burns, from its receipts. -/
def blockSupplyDelta (block : Block) (parentTimestamp : U64) : Bix × Bix :=
  let subsidy := blockRewardForIntervalBix parentTimestamp block.header.timestampSeconds
  let gasUsed := (block.receipts.map fun receipt => receipt.gasUsed).foldl (· + ·) 0
  let split := feeSplitForUtilization (utilizationBasisPoints gasUsed block.header.gasLimit)
  let grossFees := ((block.transactions.zip block.receipts).map fun (transaction, receipt) =>
    saturatingMul (receipt.gasUsed.setWidth 128)
      (effectiveGasPrice transaction block.header.baseFeePerGas)).foldl saturatingAdd 0
  (subsidy, (split.splitFee grossFees).1)

/-- The balance of an account in the range the database holds. -/
def balanceToBix (balance : U256) : Option Bix :=
  if balance.toNat < 2 ^ 128 then some (balance.setWidth 128) else none

def evmAccountsFromRevmState (state : RevmState) : Except NodeError EvmStateSnapshot :=
  state.accounts.toList.foldlM (fun accounts (address, account) =>
    match balanceToBix account.balance with
    | some balance => pure (accounts.insert address
        { balance := balance, nonce := account.nonce, code := account.code,
          storage := account.storage })
    | none => throw (.bail "EVM balance exceeds BLQ account range")) ∅

def evmStateRootFromRevmState (state : RevmState) : Except NodeError Hash256 := do
  let accounts ← evmAccountsFromRevmState state
  pure (evmStateRootFromAccounts O accounts)

/-! ## Plain-transfer blocks -/

def transferGas : U64 := 21000

def validateTransferTransactionShape (transaction : Transaction) : Except NodeError Unit := do
  if transaction.to_.isNone then return
  if !transaction.payload.isEmpty then return
  if transaction.gasLimit.toNat < transferGas.toNat then
    throw (.bail "plain BLQ transfer gas_limit must be at least 21000")

/-- The variables of the loop over a plain block's transactions. -/
structure TransferProgress where
  accounts : NativeAccounts
  minerFees : Bix := 0
  receipts : List Receipt := []

/-- One turn of the loop. The recipient is credited after the sender was debited, also when
they are the same account. -/
def transferStep (header : BlockHeader) (split : FeeSplit) (p : TransferProgress)
    (transaction : Transaction) : Except NodeError TransferProgress := do
  validateTransferTransactionShape transaction
  liftConsensus (validateTransactionFee transaction header.baseFeePerGas)
  let some to_ := transaction.to_ | throw (.bail "contract creation is not implemented yet")
  let sender := (p.accounts[transaction.from_]?).getD (0, 0)
  if sender.2 ≠ transaction.nonce then
    throw (.bail ("invalid nonce for " ++ Address.toHex transaction.from_ ++ ": expected " ++
      toString sender.2.toNat ++ ", got " ++ toString transaction.nonce.toNat))
  let price := effectiveGasPrice transaction header.baseFeePerGas
  let fee := saturatingMul (transaction.gasLimit.setWidth 128) price
  let totalCost := saturatingAdd transaction.value fee
  if sender.1.toNat < totalCost.toNat then
    throw (.bail ("account " ++ Address.toHex transaction.from_ ++ " has insufficient balance"))
  let accounts := p.accounts.insert transaction.from_
    (sender.1 - totalCost, saturatingAdd sender.2 1)
  let accounts := Map.entry accounts to_ (0, 0) fun e => (saturatingAdd e.1 transaction.value, e.2)
  pure
    { accounts := accounts
      minerFees := saturatingAdd p.minerFees (split.splitFee fee).2
      receipts := p.receipts ++
        [{ transactionHash := transaction.rpcHash O
           success := true
           gasUsed := transaction.gasLimit
           logsRoot := 0
           logs := [] }] }

def simulateStateTransitionFromAccounts (accounts : NativeAccounts) (block : Block)
    (parentTimestamp : U64) : Except NodeError (NativeAccounts × List Receipt × U64) := do
  let gasUsed ← (block.transactions.map fun transaction => transaction.gasLimit).foldlM addGas 0
  if gasUsed.toNat > block.header.gasLimit.toNat then
    throw (.bail "block gas used exceeds gas limit")
  let split := feeSplitForUtilization (utilizationBasisPoints gasUsed block.header.gasLimit)
  let p ← block.transactions.foldlM (transferStep O block.header split) { accounts := accounts }
  let reward := blockRewardForIntervalBix parentTimestamp block.header.timestampSeconds
  let beneficiaryCredit := saturatingAdd reward p.minerFees
  let accounts :=
    if beneficiaryCredit.toNat > 0 then
      Map.entry p.accounts block.header.beneficiaryAddress (0, 0) fun e =>
        (saturatingAdd e.1 beneficiaryCredit, e.2)
    else p.accounts
  pure (accounts, p.receipts, gasUsed)

end Blq
