import Blq.Spec.Rpc

/-!
# Log queries (`blq-node`, `blq-storage`)

`eth_getLogs` takes a range of blocks or the hash of one, a filter on the address and one on the
topics. The index of the logs gives the numbers of the blocks that may hold a match; it is asked
for the addresses if there are any, or else for the first topic that is not left open. The bodies
of these blocks are then read and each log is matched; a body that is not here is fetched.
-/

namespace Blq

open Word Result

/-! ## The index -/

namespace Rows

def logAddressPrefix (address : Address) : RowKey :=
  "log:index:address:".toList ++ (hexEncode (beBytes address)).toList ++ [':']

def logTopicPrefix (topic : Hash256) : RowKey :=
  "log:index:topic:".toList ++ topic.toHex.toList ++ [':']

/-- The numbers of the index rows below a key that lie in the range. -/
def collectIndexedLogNumbers (rows : Rows) (tag : RowKey) (first last : U64) :
    Except NodeError (List U64) := do
  let numbers ← (scanPrefix rows tag).mapM fun (_, value) => logNumber value
  pure (numbers.filter fun number => first.toNat ≤ number.toNat ∧ number.toNat ≤ last.toNat)

/-- The keys the index is asked for. -/
def askedTags (addresses : Option (List Address)) (topics : Option (List Hash256)) : List RowKey :=
  match addresses, topics with
  | some addresses, _ => addresses.map logAddressPrefix
  | none, some topics => topics.map logTopicPrefix
  | none, none => ["log:index:location:".toList]

def indexedLogBlockNumbers (rows : Rows) (first last : U64) (addresses : Option (List Address))
    (topics : Option (List Hash256)) : Except NodeError (List U64) := do
  let numbers ← (askedTags addresses topics).mapM fun tag =>
    collectIndexedLogNumbers rows tag first last
  pure numbers.flatten

end Rows

/-! ## Filters -/

/-- A text that names the value. -/
def namesAddress (address : Address) (value : JsonValue) : Bool :=
  value.text?.any fun text => Address.fromHex text == some address

def namesTopic (topic : Hash256) (value : JsonValue) : Bool :=
  value.text?.any fun text => Hash256.fromHex text == some topic

/-- One value or a list of alternatives. Everything else matches nothing. -/
def matchesValue (names : JsonValue → Bool) (filter : JsonValue) : Bool :=
  match filter with
  | .str _ => names filter
  | .arr values => values.any names
  | _ => false

def logAddressMatches (filter : Option JsonValue) (address : Address) : Bool :=
  match filter with
  | none => true
  | some filter => matchesValue (namesAddress address) filter

def logTopicsMatch (filter : Option (List JsonValue)) (topics : List Hash256) : Bool :=
  match filter with
  | none => true
  | some filter => filter.zipIdx.all fun (expected, index) =>
    match topics[index]? with
    | none => false
    | some actual => expected.isNull || matchesValue (namesTopic actual) expected

/-- The values a filter names, without those that cannot be read. -/
def namedValues {α : Type} (fromHex : String → Option α) (filter : JsonValue) : List α :=
  match filter with
  | .str text => (fromHex text).toList
  | .arr values => values.filterMap fun value => value.text?.bind fromHex
  | _ => []

def indexedLogAddresses (filter : Option JsonValue) : Option (List Address) :=
  filter.map (namedValues Address.fromHex)

/-- The first position that is not left open. -/
def indexedLogTopics (filter : Option (List JsonValue)) : Option (List Hash256) := do
  let expected ← (← filter).find? fun expected => !expected.isNull
  pure (namedValues Hash256.fromHex expected)

/-! ## Answers -/

section

variable (O : Oracle)

def hashText (hash : Hash256) : JsonValue := .str ("0x" ++ hash.toHex)

def quantity (n : ℕ) : JsonValue := .str (hexQuantity n)

def logToRpcJson (log : LogEntry) (receipt : Receipt) (header : BlockHeader)
    (transactionIndex logIndex : ℕ) : List (String × JsonValue) :=
  [("address", .str log.address.toHex),
    ("topics", .arr (log.topics.map hashText)),
    ("data", .str ("0x" ++ hexEncode log.data)),
    ("blockNumber", quantity header.number.toNat),
    ("transactionHash", hashText receipt.transactionHash),
    ("transactionIndex", quantity transactionIndex),
    ("blockHash", hashText (header.hash O)),
    ("logIndex", quantity logIndex),
    ("removed", .bool false)]

/-- The logs of a block that match, as `rpc_get_logs` writes them: the hash of the transaction is
written over. The position is the one in the receipt. -/
def matchingLogs (addressFilter : Option JsonValue) (topicFilter : Option (List JsonValue))
    (block : Block) : List JsonValue :=
  (block.transactions.zip block.receipts).zipIdx.flatMap fun ((transaction, receipt), transactionIndex) =>
    (receipt.logs.zipIdx.filter fun (log, _) =>
      logAddressMatches addressFilter log.address && logTopicsMatch topicFilter log.topics).map
        fun (log, logIndex) =>
          .obj (JsonValue.setMember (logToRpcJson O log receipt block.header transactionIndex logIndex)
            "transactionHash" (hashText (transaction.rpcHash O)))

/-- The logs of `receipt_to_rpc_json`. -/
def receiptLogs (receipt : Receipt) (header : BlockHeader) (transactionIndex : ℕ) : List JsonValue :=
  receipt.logs.zipIdx.map fun (log, logIndex) =>
    .obj (logToRpcJson O log receipt header transactionIndex logIndex)

/-! ## The query -/

def maxLogBlockRange : ℕ := 2000

def maxRpcRemoteLogBlocks : ℕ := 64

/-- Everything that is not a name of a block is a number. -/
def parseBlockTag (tag : String) (latest : U64) : Except String U64 :=
  if tag = "latest" ∨ tag = "safe" ∨ tag = "finalized" ∨ tag = "pending" then pure latest
  else if tag = "earliest" then pure 0
  else parseHex 64 tag

def parseLogBlockTag (value : Option JsonValue) (latest : U64) : Except String U64 :=
  parseBlockTag ((value.bind JsonValue.text?).getD "latest") latest

/-- The block with the hash, if there is one. -/
def hashBlockNumbers (storage : ChainStorage) (hash : Hash256) : Rpc (List U64) :=
  match storage.headerByHash hash with
  | .ok header => pure [header.number]
  | .error (.storage .notFound) => pure []
  | .error e => throw (.server e.message)

/-- The blocks of a filter. -/
def logBlockNumbers (storage : ChainStorage) (filter : JsonValue) (latest : U64) : Rpc (List U64) :=
  match filter.member? "blockHash" with
  | some blockHash => do
    if (filter.member? "fromBlock").isSome ∨ (filter.member? "toBlock").isSome then
      throw (.invalidParams "eth_getLogs blockHash cannot be combined with a block range")
    match blockHash.text? with
    | none => throw (.invalidParams "eth_getLogs blockHash must be a hex hash")
    | some text =>
      match Hash256.fromHex text with
      | none => throw (.invalidParams ("invalid blockHash: " ++ hexHashError text))
      | some hash => hashBlockNumbers storage hash
  | none => do
    let first ← orInvalid "" (parseLogBlockTag (filter.member? "fromBlock") latest)
    let last ← orInvalid "" (parseLogBlockTag (filter.member? "toBlock") latest)
    if last.toNat < first.toNat ∨ last.toNat - first.toNat > maxLogBlockRange then
      throw (.invalidParams "eth_getLogs block range is invalid or too large")
    pure (SledStorage.heights first last)

/-- One block of the loop, with the number of bodies fetched so far: `none` where the block is
skipped. -/
def logBlock (peers : BodyPeers) (storage : ChainStorage) (indexed : List U64) (fetched : ℕ)
    (number : U64) : Rpc (Option Block × ℕ) :=
  match storage.blockByNumber number with
  | .ok block => pure (if indexed.contains number then some block else none, fetched)
  | .error (.storage .notFound) => do
    if fetched + 1 > maxRpcRemoteLogBlocks then
      throw (.server "historical log query exceeds the remote body fetch limit")
    match ← orServerError (loadRpcBlock O peers storage number) with
    | some block => pure (some block, fetched + 1)
    | none => throw (.server "historical log block body unavailable")
  | .error e => throw (.server e.message)

/-- The bodies that are looked through, in order. -/
def logBlocks (peers : BodyPeers) (storage : ChainStorage) (indexed : List U64) :
    ℕ → List U64 → Rpc (List Block)
  | _, [] => pure []
  | fetched, number :: rest => do
    let (block, fetched) ← logBlock O peers storage indexed fetched number
    let blocks ← logBlocks peers storage indexed fetched rest
    pure (block.toList ++ blocks)

/-- `rpc_get_logs` on a filter object. -/
def getLogs (peers : BodyPeers) (rows : Rows) (filter : JsonValue) : Rpc JsonValue := do
  let storage := rows.reader O
  let best ← orServerError storage.bestHeader
  let numbers ← logBlockNumbers storage filter best.number
  let addressFilter := filter.member? "address"
  let topicFilter := (filter.member? "topics").bind JsonValue.asArray?
  let indexed ← orServerError (rows.indexedLogBlockNumbers (numbers.head?.getD 0)
    (numbers.getLast?.getD 0) (indexedLogAddresses addressFilter) (indexedLogTopics topicFilter))
  let blocks ← logBlocks O peers storage indexed 0 numbers
  pure (.arr (blocks.flatMap (matchingLogs O addressFilter topicFilter)))

def rpcGetLogs (peers : BodyPeers) (rows : Rows) (parsed : JsonValue) : Rpc JsonValue :=
  match parsed.param? 0 with
  | some (.obj members) => getLogs O peers rows (.obj members)
  | _ => throw (.invalidParams "eth_getLogs requires a filter object")

end

end Blq
