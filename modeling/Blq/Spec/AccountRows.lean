import Blq.Spec.Rpc

/-!
# The rows of the accounts (`blq-storage`)

An account is spread over four families of rows: its balance, its nonce, its code and one row for
each slot of its storage. A snapshot collects them again by scanning the families one after the other.
-/

namespace Blq

open Word Result

namespace Rows

/-! ## Reading keys and values -/

def suffixOf (tag : RowKey) (refusal : String) (key : RowKey) : Except NodeError RowKey :=
  if tag.isPrefixOf key then pure (key.drop tag.length) else throw (corrupt refusal)

def readName {α : Type} (fromHex : String → Option α) (name : List Char) : Except NodeError α :=
  match fromHex (String.ofList name) with
  | some value => pure value
  | none => throw (corrupt (hexHashError (String.ofList name)))

def addressFromBalanceKey (key : RowKey) : Except NodeError Address := do
  readName Address.fromHex (← suffixOf "account:balance:".toList "invalid account key" key)

def addressFromNonceKey (key : RowKey) : Except NodeError Address := do
  readName Address.fromHex (← suffixOf "account:nonce:".toList "invalid nonce key" key)

def addressFromCodeKey (key : RowKey) : Except NodeError Address := do
  readName Address.fromHex (← suffixOf "account:code:".toList "invalid code key" key)

def addressFromStorageKey (key : RowKey) : Except NodeError (Address × Hash256) := do
  let suffix ← suffixOf "account:storage:".toList "invalid storage key" key
  if ':' ∉ suffix then throw (corrupt "invalid storage key separator")
  let address ← readName Address.fromHex (suffix.takeWhile (· ≠ ':'))
  let slot ← readName Hash256.fromHex (suffix.dropWhile (· ≠ ':')).tail
  pure (address, slot)

/-- The bytes of a word of fixed width. -/
def wordFromSlice (width : ℕ) (refusal : String) : RowValue → Except NodeError (BitVec width)
  | .bytes bytes =>
    if bytes.length = width / 8 then pure (BitVec.ofNat width (ofBeBytes bytes))
    else throw (corrupt refusal)
  | _ => throw (corrupt refusal)

def u128FromSlice : RowValue → Except NodeError U128 := wordFromSlice 128 "invalid u128 value"

def hashFromBytes : RowValue → Except NodeError Hash256 := wordFromSlice 256 "invalid hash value"

/-! ## Snapshots -/

variable (rows : Rows)

def addBalance (accounts : NativeAccounts) : RowKey × RowValue → Except NodeError NativeAccounts
  | (key, value) => do
    let address ← addressFromBalanceKey key
    let balance ← u128FromSlice value
    pure (Map.entry accounts address (0, 0) fun e => (balance, e.2))

def addNonce (accounts : NativeAccounts) : RowKey × RowValue → Except NodeError NativeAccounts
  | (key, value) => do
    let address ← addressFromNonceKey key
    let nonce ← wordFromSlice 64 "invalid nonce value" value
    pure (Map.entry accounts address (0, 0) fun e => (e.1, nonce))

def accountSnapshot : Except NodeError NativeAccounts := do
  let accounts ← (scanPrefix rows "account:balance:".toList).foldlM addBalance ∅
  (scanPrefix rows "account:nonce:".toList).foldlM addNonce accounts

def addCode (accounts : EvmStateSnapshot) : RowKey × RowValue → Except NodeError EvmStateSnapshot
  | (key, value) => do
    let address ← addressFromCodeKey key
    match value with
    | .bytes code => pure (Map.entry accounts address {} fun e => { e with code := code })
    | _ => invalidValue

def addSlot (accounts : EvmStateSnapshot) : RowKey × RowValue → Except NodeError EvmStateSnapshot
  | (key, value) => do
    let (address, slot) ← addressFromStorageKey key
    let value ← hashFromBytes value
    pure (Map.entry accounts address {} fun e => { e with storage := e.storage.insert slot value })

def evmAccountSnapshot : Except NodeError EvmStateSnapshot := do
  let accounts := (← accountSnapshot rows).map fun _ e => { balance := e.1, nonce := e.2 }
  let accounts ← (scanPrefix rows "account:code:".toList).foldlM addCode accounts
  (scanPrefix rows "account:storage:".toList).foldlM addSlot accounts

/-! ## Writing -/

def putAccount (address : Address) (balance : Bix) (nonce : U64) : EStateM NodeError Rows Unit := do
  modify fun rows => rows.insert (balanceKey address) (.bytes (beBytes balance))
  modify fun rows => rows.insert (nonceKey address) (.bytes (beBytes nonce))

def putCode (address : Address) (code : Bytes) (rows : Rows) : Rows :=
  if code.isEmpty then rows.erase (codeKey address) else rows.insert (codeKey address) (.bytes code)

def putSlot (address : Address) (rows : Rows) (slot value : Hash256) : Rows :=
  if value = 0 then rows.erase (storageKey address slot)
  else rows.insert (storageKey address slot) (.bytes (beBytes value))

/-- The account's slots that are stored and not in the new storage are removed first. -/
def putEvmAccount (address : Address) (balance : Bix) (nonce : U64) (code : Bytes)
    (storage : Map Hash256 Hash256) : EStateM NodeError Rows Unit := do
  putAccount address balance nonce
  modify (putCode address code)
  let stored ← runExcept <| (scanPrefix (← get) "account:storage:".toList).mapM fun (key, _) => do
    pure (key, ← addressFromStorageKey key)
  let existing := stored.filter fun (_, storedAddress, _) => storedAddress == address
  modify fun rows => existing.foldl (fun rows (key, _, slot) =>
    if storage.contains slot then rows else rows.erase key) rows
  modify fun rows => storage.foldl (putSlot address) rows

end Rows

end Blq
