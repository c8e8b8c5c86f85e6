import Blq.Map.Basic
import Blq.Spec.Consensus

/-!
# The node's database (`blq-storage`)

The key-value store of a full node, one typed map for each family of keys: the numbers of
`header:number:`, `block:number:` and `state:evm-snapshot:` keys are zero-padded, so their
order is that of the numbers; an `account:storage:` key is the pair of address and slot.
Reading and writing the disk does not fail here. The transaction, receipt and log indexes
are left out: nothing below reads them.
-/

namespace Blq

open Word

/-- The account row of `evm_account_snapshot`. -/
structure EvmAccountSnapshot where
  balance : Bix := 0
  nonce : U64 := 0
  code : Bytes := []
  storage : Map Hash256 Hash256 := ∅
deriving DecidableEq

abbrev EvmStateSnapshot := Map Address EvmAccountSnapshot

/-- A native account row: balance and nonce. -/
abbrev NativeAccounts := Map Address (Bix × U64)

/-- The key of a storage slot, the address before the slot. -/
abbrev StorageKey := BitVec 416

instance : Std.TransOrd StorageKey := inferInstance

def storageKey (address : Address) (slot : Hash256) : StorageKey := address ++ slot

def addressFromStorageKey (key : StorageKey) : Address × Hash256 :=
  (key.extractLsb' 256 160, key.setWidth 256)

structure SledStorage where
  /-- `best:number` -/
  bestNumber : Option U64 := none
  /-- `header:number:` -/
  headers : Map U64 BlockHeader := ∅
  /-- `block:number:` -/
  blocks : Map U64 Block := ∅
  /-- `account:balance:` -/
  balances : Map Address Bix := ∅
  /-- `account:nonce:` -/
  nonces : Map Address U64 := ∅
  /-- `account:code:` -/
  codes : Map Address Bytes := ∅
  /-- `account:storage:` -/
  slots : Map StorageKey Hash256 := ∅
  /-- `orphan:block:` -/
  orphans : Map Hash256 Block := ∅
  /-- `candidate:block:` -/
  candidates : Map Hash256 Block := ∅
  /-- `candidate:work:` -/
  candidateWorks : Map Hash256 U128 := ∅
  /-- `candidate:quarantine:`, with the reason -/
  quarantine : Map Hash256 String := ∅
  /-- `recovery:`, the bodies of a recovery with their cumulative work, by hash -/
  recoverySpool : Map Hash256 (Block × U128) := ∅
  /-- `state:evm-snapshot:` -/
  evmSnapshots : Map U64 EvmStateSnapshot := ∅
  /-- `state:rewards:indexed_to` -/
  rewardIndexedTo : U64 := 0
  /-- `state:supply:indexed_to`, `state:supply:total` and `state:supply:burned` -/
  supplyTotals : U64 × U128 × U128 := (0, 0, 0)

namespace SledStorage

variable (O : Oracle) (s : SledStorage)

/-! ## Accounts -/

def putAccount (address : Address) (balance : Bix) (nonce : U64) : SledStorage :=
  { s with
    balances := s.balances.insert address balance
    nonces := s.nonces.insert address nonce }

def balance (address : Address) : Bix := (s.balances[address]?).getD 0

def nonce (address : Address) : U64 := (s.nonces[address]?).getD 0

def accountSnapshot : NativeAccounts :=
  let accounts : NativeAccounts := s.balances.foldl
    (fun accounts address balance => Map.entry accounts address (0, 0) fun e => (balance, e.2)) ∅
  s.nonces.foldl
    (fun accounts address nonce => Map.entry accounts address (0, 0) fun e => (e.1, nonce)) accounts

/-- The rows of `evm_account_snapshot` before the storage slots are read. -/
def accountsWithCode : EvmStateSnapshot :=
  let accounts : EvmStateSnapshot := s.accountSnapshot.map fun _ e =>
    { balance := e.1, nonce := e.2 }
  s.codes.foldl
    (fun accounts address code => Map.entry accounts address {} fun e => { e with code := code })
    accounts

def evmAccountSnapshot : EvmStateSnapshot :=
  s.slots.foldl (fun accounts key value =>
    let (address, slot) := addressFromStorageKey key
    Map.entry accounts address {} fun e => { e with storage := e.storage.insert slot value })
    s.accountsWithCode

/-- The slots of `address` that are not in the new storage are removed first, then the new
ones are written, a zero value removing its key. -/
def putEvmAccount (address : Address) (balance : Bix) (nonce : U64) (code : Bytes)
    (storage : Map Hash256 Hash256) : SledStorage :=
  let s := s.putAccount address balance nonce
  let codes := if code.isEmpty then s.codes.erase address else s.codes.insert address code
  let slots := s.slots.filter fun key _ =>
    let (storedAddress, slot) := addressFromStorageKey key
    !(storedAddress == address && !storage.contains slot)
  let slots := storage.foldl (fun slots slot value =>
    if value = 0 then slots.erase (storageKey address slot)
    else slots.insert (storageKey address slot) value) slots
  { s with codes := codes, slots := slots }

/-! ## The canonical chain -/

def getBestNumber : Except StorageError U64 :=
  match s.bestNumber with
  | some number => pure number
  | none => throw .notFound

def headerByNumber (number : BlockNumber) : Except StorageError BlockHeader :=
  match s.headers[number]? with
  | some header => pure header
  | none => throw .notFound

def bestHeader : Except StorageError BlockHeader := do
  s.headerByNumber (← s.getBestNumber)

def blockByNumber (number : U64) : Except StorageError Block :=
  match s.blocks[number]? with
  | some block => pure block
  | none => throw .notFound

/-- Writing a header always makes its height the best one. -/
def putHeader (header : BlockHeader) : SledStorage :=
  { s with headers := s.headers.insert header.number header, bestNumber := some header.number }

/-- `ChainStorage::insert_block` of the database: body, header and best height. -/
def insertBlock (block : Block) : SledStorage :=
  { s with blocks := s.blocks.insert block.header.number block }.putHeader block.header

def setRewardIndexedTo (number : U64) : SledStorage := { s with rewardIndexedTo := number }

def putEvmStateSnapshot (number : U64) (snapshot : EvmStateSnapshot) : SledStorage :=
  { s with evmSnapshots := s.evmSnapshots.insert number snapshot }

end SledStorage

/-! ## State roots -/

section Roots

variable (O : Oracle)

/-- Accounts with neither balance nor nonce are left out, the number of the others comes
first. -/
def stateRootFromAccounts (accounts : NativeAccounts) : Hash256 :=
  let entries := accounts.toList.filter fun (_, balance, nonce) =>
    decide (balance.toNat > 0) || decide (nonce.toNat > 0)
  hashBytes O ("BLQ-STATE-v1".toUTF8.toList ++ toBeBytes 8 entries.length ++
    entries.flatMap fun (address, balance, nonce) =>
      beBytes address ++ beBytes balance ++ beBytes nonce)

def EvmAccountSnapshot.isEmpty (account : EvmAccountSnapshot) : Bool :=
  account.balance == 0 && account.nonce == 0 && account.code.isEmpty && account.storage.isEmpty

def evmStateRootFromAccounts (accounts : EvmStateSnapshot) : Hash256 :=
  hashBytes O ("BLQ-EVM-STATE-v1".toUTF8.toList ++
    (accounts.toList.filter fun (_, account) => !account.isEmpty).flatMap fun (address, account) =>
      beBytes address ++ beBytes account.balance ++ beBytes account.nonce ++
        beBytes (hashBytes O account.code) ++
        account.storage.toList.flatMap fun (slot, value) => beBytes slot ++ beBytes value)

end Roots

end Blq
