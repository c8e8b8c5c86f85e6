import Blq.Monad.Basic
import Blq.Spec.Execution

/-!
# The node's database operations (`NodeStorage`)

Executing a block against the database, checking and building blocks on it, and inserting
a block: the new accounts are written one by one over the old ones. A failing operation
keeps what it has written so far.
-/

namespace Blq

open Word Result

variable (O : Oracle) (R : Revm)

/-- Native balances and nonces over the accounts of an executor state. -/
def mergeNativeAccountsIntoRevmState (state : RevmState) (accounts : NativeAccounts) : RevmState :=
  accounts.foldl (fun state address (balance, nonce) =>
    state.putAccount address
      { state.account address with balance := balance.setWidth 256, nonce := nonce }) state

variable (s : SledStorage)

/-- The executor state the database holds. `NodeStorage::evm_state` is the same code. -/
def revmStateFromSled : RevmState :=
  let state := s.evmAccountSnapshot.foldl (fun state address account =>
    state.putAccount address
      { nonce := account.nonce
        balance := account.balance.setWidth 256
        code := account.code
        storage := account.storage }) {}
  mergeNativeAccountsIntoRevmState state s.accountSnapshot

/-- The timestamp of the block before, zero for the first block. -/
def parentTimestamp (header : BlockHeader) : Except StorageError U64 :=
  if header.number = 0 then pure 0
  else do
    let parent ← s.headerByNumber (header.number - 1)
    pure parent.timestampSeconds

def simulateEvmStateTransition (block : Block) : Except NodeError EvmSimulation := do
  let timestamp ← liftStorage (parentTimestamp s block.header)
  simulateEvmStateTransitionFromState O R (revmStateFromSled s) block timestamp

def simulateStateTransition (block : Block) :
    Except NodeError (NativeAccounts × List Receipt × U64) := do
  let timestamp ← liftStorage (parentTimestamp s block.header)
  simulateStateTransitionFromAccounts O s.accountSnapshot block timestamp

/-! ## Building and checking a block -/

/-- What execution adds to a block: the receipts, the gas used and the new state root. -/
structure Executed where
  receipts : List Receipt
  gasUsed : U64
  stateRoot : Hash256
deriving DecidableEq

/-- A block with a contract transaction is executed by the EVM, any other one by the transfer
rule; the state root is that of the resulting accounts. -/
def executeBlock (block : Block) : Except NodeError Executed :=
  if block.transactions.any isEvmTransaction then do
    let simulation ← simulateEvmStateTransition O R s block
    let root ← evmStateRootFromRevmState O simulation.state
    pure ⟨simulation.receipts, simulation.gasUsed, root⟩
  else do
    let (accounts, receipts, gasUsed) ← simulateStateTransition O s block
    pure ⟨receipts, gasUsed, stateRootFromAccounts O accounts⟩

/-- The header and the receipts of a block filled in from its execution. -/
def Block.withExecution (block : Block) (e : Executed) : Block :=
  { block with
    receipts := e.receipts
    header := { block.header with
      gasUsed := e.gasUsed
      transactionsRoot := transactionsRoot O block.transactions
      receiptsRoot := receiptsRoot O e.receipts
      stateRoot := e.stateRoot } }

def buildStatefulBlock (block : Block) (transactions : List Transaction) :
    Except NodeError Block := do
  let block := { block with transactions := transactions }
  let e ← executeBlock O R s block
  pure (block.withExecution O e)

/-- The checks of a received block against its execution; `subject` and `root` are the words
the two kinds of blocks use in the texts. -/
def validateExecuted (block : Block) (e : Executed) (subject receiptsOf root against : String) :
    Except NodeError Unit := do
  if block.header.gasUsed ≠ e.gasUsed then
    throw (.bail ("block gas used does not match " ++ subject ++ ": expected " ++
      toString e.gasUsed.toNat ++ ", got " ++ toString block.header.gasUsed.toNat))
  if block.receipts ≠ e.receipts then
    throw (.bail ("block receipts do not match " ++ receiptsOf ++ " execution"))
  if block.header.transactionsRoot ≠ transactionsRoot O block.transactions then
    throw (.bail "block transactions root does not match transactions")
  if block.header.receiptsRoot ≠ receiptsRoot O block.receipts then
    throw (.bail "block receipts root does not match receipts")
  if block.header.stateRoot ≠ e.stateRoot then
    throw (.bail ("block " ++ root ++ " does not match " ++ against ++ ": expected " ++
      Hash256.toHex e.stateRoot ++ ", got " ++ Hash256.toHex block.header.stateRoot))

def validateStateRoot (block : Block) : Except NodeError Unit := do
  let e ← executeBlock O R s block
  if block.transactions.any isEvmTransaction then
    validateExecuted O block e "EVM execution" "EVM transaction" "EVM state root" "execution"
  else
    validateExecuted O block e "execution" "transaction" "state root" "execution state"

/-! ## Inserting a block -/

def persistRevmState (state : RevmState) : EStateM StorageError SledStorage Unit :=
  state.accounts.toList.forM fun (address, account) =>
    match balanceToBix account.balance with
    | some balance =>
      modify fun s => s.putEvmAccount address balance account.nonce account.code account.storage
    | none => throw (.serialization "EVM balance exceeds BLQ account range")

def evmStateSnapshotInterval : U64 := 256

def persistHistoricalEvmSnapshot (number : U64) : EStateM StorageError SledStorage Unit := do
  if number % evmStateSnapshotInterval ≠ 0 then return
  modify fun s => s.putEvmStateSnapshot number s.evmAccountSnapshot

/-- An execution error inside a storage operation. -/
def asSerialization {α : Type} (x : Except NodeError α) : Except StorageError α :=
  x.mapError fun e => .serialization e.message

/-- `NodeStorage::insert_block` of a full node. -/
def nodeInsertBlock (block : Block) : EStateM StorageError SledStorage Unit := do
  let s ← get
  let timestamp ← runExcept (parentTimestamp s block.header)
  if block.transactions.any isEvmTransaction then
    let simulation ← runExcept (asSerialization
      (simulateEvmStateTransitionFromState O R (revmStateFromSled s) block timestamp))
    modify fun s => s.insertBlock block
    persistRevmState simulation.state
  else
    let (accounts, _, _) ← runExcept (asSerialization
      (simulateStateTransitionFromAccounts O s.accountSnapshot block timestamp))
    modify fun s => s.insertBlock block
    accounts.toList.forM fun (address, balance, nonce) =>
      modify fun s => s.putAccount address balance nonce
  modify fun s => s.setRewardIndexedTo block.header.number
  persistHistoricalEvmSnapshot block.header.number

end Blq
