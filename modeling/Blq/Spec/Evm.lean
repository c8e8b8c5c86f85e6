import Blq.Map.Basic
import Blq.Spec.Consensus

/-!
# The contract executor (`blq-evm`)

`RevmState` is the in-memory state the node lends to the third-party EVM. The EVM is a
parameter, `Revm`: from the state, the block environment and the transaction it returns
a result and a map of changed accounts. What is done with the changes is the node's own
code, `RevmState.commit`.
-/

namespace Blq

open Word

structure RevmAccount where
  nonce : U64 := 0
  balance : U256 := 0
  code : Bytes := []
  storage : Map U256 U256 := ∅
deriving DecidableEq

instance : Inhabited RevmAccount := ⟨{}⟩

structure RevmState where
  accounts : Map Address RevmAccount := ∅
deriving DecidableEq

namespace RevmState

variable (S : RevmState)

def account (address : Address) : RevmAccount := (S.accounts[address]?).getD default

def putAccount (address : Address) (account : RevmAccount) : RevmState :=
  { S with accounts := S.accounts.insert address account }

end RevmState

/-- A changed account as the EVM reports it, with the present values of the slots it
touched. -/
structure AccountChange where
  selfdestructed : Bool
  nonce : U64
  balance : U256
  code : Option Bytes
  storage : Map U256 U256
deriving DecidableEq

abbrev Changes := Map Address AccountChange

/-- A slot is removed when its present value is zero. -/
def commitSlot (storage : Map U256 U256) (key presentValue : U256) : Map U256 U256 :=
  if presentValue = 0 then storage.erase key else storage.insert key presentValue

def commitAccount (S : RevmState) (address : Address) (change : AccountChange) : RevmState :=
  if change.selfdestructed then { S with accounts := S.accounts.erase address }
  else
    let next := S.account address
    S.putAccount address
      { nonce := change.nonce
        balance := change.balance
        code := change.code.getD next.code
        storage := change.storage.foldl commitSlot next.storage }

def RevmState.commit (S : RevmState) (changes : Changes) : RevmState :=
  changes.foldl commitAccount S

structure BlockEnv where
  number : U256
  beneficiary : Address
  timestamp : U256
  gasLimit : U64
  basefee : U64
  difficulty : U256
  prevrandao : Option Hash256
  blobExcessGasAndPrice : Option (U64 × U64)
  slotNum : U64
deriving DecidableEq

inductive TxKind where
  | call (to_ : Address)
  | create
deriving DecidableEq

structure TxEnv where
  caller : Address
  gasLimit : U64
  maxFeePerGas : U128
  gasPriorityFee : Option U128
  kind : TxKind
  value : U256
  data : Bytes
  accessList : List TransactionAccessListItem
  nonce : U64
  chainId : Option U64
deriving DecidableEq

structure ExecutionOutput where
  success : Bool
  gasUsed : U64
  output : Bytes
  logs : List LogEntry
deriving DecidableEq

/-- The third-party EVM: configured with a chain id, it runs one transaction against a
state and returns its result and the changed accounts, or refuses the transaction. -/
structure Revm where
  transact : U64 → RevmState → BlockEnv → TxEnv → Except String (ExecutionOutput × Changes)

/-- The block environment of a header. The base fee must fit in 64 bits. -/
def blockEnv (header : BlockHeader) : Except NodeError BlockEnv :=
  if header.baseFeePerGas.toNat < 2 ^ 64 then
    pure
      { number := header.number.setWidth 256
        beneficiary := header.beneficiaryAddress
        timestamp := header.timestampSeconds.setWidth 256
        gasLimit := header.gasLimit
        basefee := header.baseFeePerGas.setWidth 64
        difficulty := 0
        prevrandao := some header.mixHash
        blobExcessGasAndPrice := some (0, 1)
        slotNum := header.number }
  else throw (.execution "transaction execution failed: base fee exceeds EVM range")

def txEnv (transaction : Transaction) : TxEnv where
  caller := transaction.from_
  gasLimit := transaction.gasLimit
  maxFeePerGas := transaction.maxFeePerGas
  gasPriorityFee := some transaction.maxPriorityFeePerGas
  kind := match transaction.to_ with
    | some recipient => .call recipient
    | none => .create
  value := transaction.value.setWidth 256
  data := transaction.payload
  accessList := transaction.accessList
  nonce := transaction.nonce
  chainId := some transaction.chainId

/-- `RevmBlockExecutor::execute_transaction`: the result and the committed state. -/
def executeTransaction (R : Revm) (S : RevmState) (header : BlockHeader)
    (transaction : Transaction) : Except NodeError (ExecutionOutput × RevmState) := do
  let env ← blockEnv header
  match R.transact transaction.chainId S env (txEnv transaction) with
  | .ok (output, changes) => pure (output, S.commit changes)
  | .error text => throw (.execution ("transaction execution failed: " ++ text))

end Blq
