import Blq.Map.Batch
import Blq.Spec.Generation

/-!
# The rows of the database (`blq-storage`)

The key-value store as it is: texts as keys, and the publication of a suffix as one batch over them,
with the index rows of transactions, receipts and logs. A value that is written as JSON stands for
what it decodes to; the other values are the bytes that are stored. Reading and writing the disk does
not fail here, and the files beside the database are not part of it.
-/

namespace Blq

open Word Result

/-- The characters of a key; all keys are ASCII. -/
abbrev RowKey := List Char

inductive RowValue where
  | block (block : Block)
  | header (header : BlockHeader)
  | transaction (transaction : Transaction)
  | receipt (receipt : StoredReceipt)
  | snapshot (accounts : EvmStateSnapshot)
  | bytes (bytes : Bytes)

abbrev Rows := Map RowKey RowValue

namespace Rows

variable (O : Oracle)

/-! ## Keys -/

/-- The last `width` decimal digits; `{:020}` of a number that has no more than twenty. -/
def paddedDecimal : ℕ → ℕ → List Char
  | 0, _ => []
  | width + 1, n => paddedDecimal width (n / 10) ++ [Nat.digitChar (n % 10)]

def blockKey (number : U64) : RowKey := "block:number:".toList ++ paddedDecimal 20 number.toNat

def headerKey (number : U64) : RowKey := "header:number:".toList ++ paddedDecimal 20 number.toNat

def transactionKey (hash : Hash256) : RowKey := "transaction:".toList ++ hash.toHex.toList

def receiptKey (hash : Hash256) : RowKey := "receipt:".toList ++ hash.toHex.toList

/-- Where a log is; the two indexes are cut to 32 bits. -/
def logIndexBytes (blockNumber : U64) (transactionIndex logIndex : ℕ) : Bytes :=
  beBytes blockNumber ++ toBeBytes 4 transactionIndex ++ toBeBytes 4 logIndex

def logLocationKey (location : Bytes) : RowKey :=
  "log:index:location:".toList ++ (hexEncode location).toList

def logAddressKey (address : Address) (location : Bytes) : RowKey :=
  "log:index:address:".toList ++ (hexEncode (beBytes address)).toList ++
    ':' :: (hexEncode location).toList

def logTopicKey (topic : Hash256) (location : Bytes) : RowKey :=
  "log:index:topic:".toList ++ topic.toHex.toList ++ ':' :: (hexEncode location).toList

def balanceKey (address : Address) : RowKey :=
  "account:balance:".toList ++ (hexEncode (beBytes address)).toList

def nonceKey (address : Address) : RowKey :=
  "account:nonce:".toList ++ (hexEncode (beBytes address)).toList

def codeKey (address : Address) : RowKey :=
  "account:code:".toList ++ (hexEncode (beBytes address)).toList

def storageKey (address : Address) (slot : Hash256) : RowKey :=
  "account:storage:".toList ++ (hexEncode (beBytes address)).toList ++ ':' :: slot.toHex.toList

def evmSnapshotKey (number : U64) : RowKey :=
  "state:evm:snapshot:".toList ++ paddedDecimal 20 number.toNat

def bestKey : RowKey := "best:number".toList

/-! ## Reading -/

/-- The message of the JSON reader is not modelled. -/
def invalidValue {α : Type} : Except NodeError α := throw (.storage (.serialization "invalid value"))

variable (rows : Rows)

def getBestNumber : Except NodeError U64 :=
  match rows[bestKey]? with
  | none => throw (.storage .notFound)
  | some (.bytes bytes) =>
    if bytes.length = 8 then pure (BitVec.ofNat 64 (ofBeBytes bytes))
    else throw (.storage (.serialization "invalid best number"))
  | some _ => throw (.storage (.serialization "invalid best number"))

def headerByNumber (number : U64) : Except NodeError BlockHeader :=
  match rows[headerKey number]? with
  | none => throw (.storage .notFound)
  | some (.header header) => pure header
  | some _ => invalidValue

def bestHeader : Except NodeError BlockHeader := do
  headerByNumber rows (← getBestNumber rows)

def blockByNumber (number : U64) : Except NodeError Block :=
  match rows[blockKey number]? with
  | none => throw (.storage .notFound)
  | some (.block block) => pure block
  | some _ => invalidValue

def scanPrefix (tag : RowKey) : List (RowKey × RowValue) :=
  rows.toList.filter fun (key, _) => tag.isPrefixOf key

/-! ## The rows of a block -/

/-- The source's index into the receipts is out of bounds at the first transaction without one. -/
def checkReceipts (block : Block) : Except NodeError Unit :=
  if block.receipts.length < block.transactions.length then
    throw (Generation.missingReceipt block block.receipts.length)
  else pure ()

def transactionRows (block : Block) : List (RowKey × RowValue) :=
  (block.transactions.zip block.receipts).zipIdx.flatMap fun ((t, receipt), index) =>
    (transactionKey (t.hash O), .transaction t) ::
      (t.externalHash.toList.map fun hash => (transactionKey hash, .transaction t)) ++
      [(receiptKey (t.rpcHash O), .receipt ⟨receipt, block.header, index, t⟩),
        (receiptKey (t.hash O), .receipt ⟨receipt, block.header, index, t⟩)]

/-- `index_block_logs` -/
def logRows (block : Block) : List (RowKey × RowValue) :=
  block.receipts.zipIdx.flatMap fun (receipt, transactionIndex) =>
    receipt.logs.zipIdx.flatMap fun (log, logIndex) =>
      let location := logIndexBytes block.header.number transactionIndex logIndex
      (logLocationKey location, .bytes location) ::
        (logAddressKey log.address location, .bytes location) ::
        log.topics.map fun topic => (logTopicKey topic location, .bytes location)

/-- `SledStorage::insert_block`, with `put_header` at its end. -/
def insertBlock (block : Block) : Except NodeError Rows := do
  checkReceipts block
  pure (Map.putAll rows ((blockKey block.header.number, .block block) ::
    (transactionRows O block ++ logRows block ++
      [(headerKey block.header.number, .header block.header),
        (bestKey, .bytes (beBytes block.header.number))])))

/-! ## Publishing a suffix -/

/-- What `insert_block_into_batch` writes. -/
def batchRows (block : Block) : List (RowKey × RowValue) :=
  (blockKey block.header.number, .block block) ::
    (headerKey block.header.number, .header block.header) :: (transactionRows O block ++ logRows block)

def insertBlockIntoBatch (batch : Batch RowKey RowValue) (block : Block) :
    Except NodeError (Batch RowKey RowValue) := do
  checkReceipts block
  pure (Batch.putAll batch (batchRows O block))

/-- What `remove_block_from_batch` removes; the log rows are removed after a scan. -/
def removedKeys (block : Block) : List RowKey :=
  blockKey block.header.number :: headerKey block.header.number ::
    block.transactions.flatMap fun t =>
      transactionKey (t.hash O) :: t.externalHash.toList.map transactionKey ++
        [receiptKey (t.rpcHash O), receiptKey (t.hash O)]

def removeBlockFromBatch (batch : Batch RowKey RowValue) (block : Block) : Batch RowKey RowValue :=
  Batch.removeAll batch (removedKeys O block)

/-- The block number in the value of a log row. -/
def logNumber : RowValue → Except NodeError U64
  | .bytes location =>
    if location.length = 16 then pure (BitVec.ofNat 64 (ofBeBytes (location.take 8)))
    else throw (.storage (.serialization "invalid log index location"))
  | _ => throw (.storage (.serialization "invalid log index location"))

def removeLogs (reorgFrom : U64) (batch : Batch RowKey RowValue) :
    Except NodeError (Batch RowKey RowValue) :=
  (scanPrefix rows "log:index:".toList).foldlM (fun batch (key, value) => do
    let number ← logNumber value
    pure (if number.toNat ≥ reorgFrom.toNat then Batch.remove batch key else batch)) batch

def removePrefix (batch : Batch RowKey RowValue) (tag : RowKey) : Batch RowKey RowValue :=
  Batch.removeAll batch ((scanPrefix rows tag).map Prod.fst)

/-- Balances and nonces are the native accounts'; of the contracts only code and storage are
written. -/
def accountRows (native : NativeAccounts) (evm : EvmStateSnapshot) : List (RowKey × RowValue) :=
  (native.toList.flatMap fun (address, balance, nonce) =>
    [(balanceKey address, .bytes (beBytes balance)), (nonceKey address, .bytes (beBytes nonce))]) ++
  evm.toList.flatMap fun (address, account) =>
    (if account.code.isEmpty then [] else [(codeKey address, .bytes account.code)]) ++
      (account.storage.toList.filter fun (_, value) => value ≠ 0).map fun (slot, value) =>
        (storageKey address slot, .bytes (beBytes value))

/-- The rows of the indexes, and the best height. -/
def stateRows (number : U64) (evm : EvmStateSnapshot) (supplyTotals : U64 × U128 × U128) :
    List (RowKey × RowValue) :=
  [(evmSnapshotKey number, .snapshot evm),
    ("state:rewards:indexed_to".toList, .bytes (beBytes number)),
    ("state:supply:indexed_to".toList, .bytes (beBytes supplyTotals.1)),
    ("state:supply:total".toList, .bytes (beBytes supplyTotals.2.1)),
    ("state:supply:burned".toList, .bytes (beBytes supplyTotals.2.2)),
    (bestKey, .bytes (beBytes number))]

def corrupt (text : String) : NodeError := .storage (.serialization text)

/-- The manifests are read and written beside the database. -/
def publishCanonicalSuffix (previous : Option GenerationManifest) (ancestor : BlockHeader)
    (replacement : List Block) (native : NativeAccounts) (evm : EvmStateSnapshot)
    (supplyTotals : U64 × U128 × U128) (target : GenerationManifest) :
    Except NodeError Rows := do
  if previous.isNone then throw (corrupt "suffix publication requires an active manifest")
  let best ← bestHeader rows
  if ancestor.number.toNat > best.number.toNat then
    throw (corrupt "suffix publication ancestor is not canonical")
  let stored ← headerByNumber rows ancestor.number
  if stored.hash O ≠ ancestor.hash O then
    throw (corrupt "suffix publication ancestor is not canonical")
  liftStorage (SledStorage.checkContiguous O (SledStorage.notContiguous O) ancestor replacement)
  let parent := (replacement.getLast?.map Block.header).getD ancestor
  if replacement.isEmpty ∨ ¬target.Describes O parent ∨
      target.replayCheckpoint ≠ some parent.number then
    throw (corrupt "suffix publication manifest does not match replacement tip")
  let reorgFrom := saturatingAdd ancestor.number 1
  let removed ← (SledStorage.heights reorgFrom best.number).mapM (blockByNumber rows)
  let batch ← removeLogs rows reorgFrom (removed.foldl (removeBlockFromBatch O) ∅)
  let batch := ["account:".toList, "state:evm:snapshot:".toList].foldl (removePrefix rows) batch
  let batch ← replacement.foldlM (insertBlockIntoBatch O) batch
  let batch := Batch.putAll batch (accountRows native evm)
  let batch := Batch.putAll batch (stateRows parent.number evm supplyTotals)
  pure (Batch.apply batch rows)

/-! ## Removing bodies -/

/-- `remove_log_indexes_for_block`; a value that is no location is passed over. -/
def removeLogIndexesForBlock (number : U64) : Rows :=
  ((scanPrefix rows "log:index:".toList).filter fun (_, value) =>
    (logNumber value).toOption == some number).foldl (fun rows (key, _) => rows.erase key) rows

/-- The rows of a body that are removed one after the other; its header stays. -/
def bodyKeys (number : U64) (block : Block) : List RowKey :=
  blockKey number :: block.transactions.flatMap fun t =>
    [transactionKey (t.hash O), transactionKey (t.rpcHash O), receiptKey (t.rpcHash O),
      receiptKey (t.hash O)]

def removeBody (number : U64) (block : Block) : Rows :=
  (bodyKeys O number block).foldl (fun rows key => rows.erase key)
    (removeLogIndexesForBlock rows number)

/-- The decimal number of a key, if it is one of 64 bits. -/
def decimalNumber (digits : List Char) : Option U64 := do
  let digits := if digits.head? = some '+' then digits.tail else digits
  if digits.isEmpty then none
  let value ← digits.foldlM (fun value c =>
    if '0' ≤ c ∧ c ≤ '9' then some (value * 10 + (c.toNat - '0'.toNat)) else none) 0
  if value < 2 ^ 64 then some (BitVec.ofNat 64 value) else none

/-- The loop of `prune_old_blocks`; `usage asked` is what the next question for the size of the
directory is answered. -/
def pruneBodies (usage : ℕ → U64) (target : U64) : ℕ → List U64 → Rows → Rows
  | _, [], rows => rows
  | asked, number :: rest, rows =>
    if (usage asked).toNat ≤ target.toNat then rows
    else
      match blockByNumber rows number with
      | .error _ => pruneBodies usage target (asked + 1) rest rows
      | .ok block => pruneBodies usage target (asked + 1) rest (removeBody O rows number block)

def pruneOldBlocks (usage : ℕ → U64) (maxBytes minimumBodyHeight : U64) : Rows :=
  let numbers := (scanPrefix rows "block:number:".toList).filterMap fun (key, _) =>
    decimalNumber (key.drop "block:number:".length)
  let numbers := (numbers.filter fun number => number.toNat > minimumBodyHeight.toNat).insertionSort
    fun a b => a.toNat ≤ b.toNat
  pruneBodies O usage (saturatingMul maxBytes 9 / 10) 0 numbers rows

end Rows

end Blq
