import Blq.Spec.Logs
import Blq.Spec.Mempool

/-!
# Filters and subscriptions (`blq-node`)

A filter is polled for what is new since the last time. All it keeps of that time is the height of
the chain then: a block filter reports the headers above that height, a log filter the logs above it,
and a filter of pending transactions the whole pool. The subscriptions of a websocket are polled by
the node itself; the one for pending transactions keeps the hashes it has sent.

The subscription to mining work is in `Spec.Mining`.
-/

namespace Blq

open Word Result

inductive RpcFilterKind where
  | logs (filter : JsonValue)
  | blocks
  | pendingTransactions

structure RpcFilter where
  kind : RpcFilterKind
  lastBlock : U64
  lastAccessedAt : U64

/-- `RPC_FILTERS` and `NEXT_RPC_FILTER_ID`. -/
structure RpcFilters where
  filters : Map U64 RpcFilter := ∅
  nextId : U64 := 1

/-- A request changes the table also when it is refused. -/
abbrev FilterM := EStateM RpcError RpcFilters

def maxRpcFilters : ℕ := 256

def rpcFilterTtlSeconds : ℕ := 5 * 60

namespace RpcFilters

def isLive (now : U64) (filter : RpcFilter) : Bool :=
  decide ((saturatingSub now filter.lastAccessedAt).toNat ≤ rpcFilterTtlSeconds)

def pruneExpired (table : RpcFilters) (now : U64) : RpcFilters :=
  { table with filters := table.filters.filter fun _ filter => isLive now filter }

/-- The entry is changed if it is there. -/
def update (table : RpcFilters) (filterId : U64) (f : RpcFilter → RpcFilter) : RpcFilters :=
  match table.filters[filterId]? with
  | some filter => { table with filters := table.filters.insert filterId (f filter) }
  | none => table

end RpcFilters

/-- The text of a response that refuses a request with the id one. -/
def RpcError.responseText (e : RpcError) : String :=
  let message := e.message.toList.flatMap fun c =>
    if c.toNat < 128 then (Json.escape c).map fun byte => Char.ofNat byte.toNat else [c]
  "\x7b\"error\":\x7b\"code\":" ++ toString e.code ++ ",\"message\":\"" ++ String.ofList message ++
    "\"\x7d,\"id\":1,\"jsonrpc\":\"2.0\"\x7d"

/-! ## Filters -/

/-- `trim_start_matches("0x")` takes the mark off as often as it is there. -/
def trimHexMarks : List Char → List Char
  | '0' :: 'x' :: rest => trimHexMarks rest
  | text => text

def filterIdFromParams (parsed : JsonValue) : Except String U64 :=
  match (parsed.param? 0).bind JsonValue.text? with
  | none => throw "missing filter id"
  | some text => (fromStrRadix 64 (trimHexMarks text.toList)).mapError fun _ => "invalid filter id"

def currentBlockNumber (rows : Rows) : Rpc U64 := do
  let best ← orServerError rows.bestHeader
  pure best.number

def newRpcFilter (now : U64) (kind : RpcFilterKind) (lastBlock : U64) : FilterM JsonValue := do
  modify fun table => table.pruneExpired now
  let table ← get
  if table.filters.size ≥ maxRpcFilters then
    throw ⟨-32005, "RPC filter limit reached; uninstall an existing filter or retry later"⟩
  let filterId := table.nextId
  set { table with
    filters := table.filters.insert filterId ⟨kind, lastBlock, now⟩
    nextId := filterId + 1 }
  return quantity filterId.toNat

def rpcFilterById (now : U64) (filterId : U64) : FilterM RpcFilter := do
  modify fun table => table.pruneExpired now
  let table ← get
  match table.filters[filterId]? with
  | none => throw (.server "filter not found or expired")
  | some filter =>
    modify fun table => table.update filterId fun filter => { filter with lastAccessedAt := now }
    return { filter with lastAccessedAt := now }

def rpcNewFilter (rows : Rows) (now : U64) (parsed : JsonValue) : FilterM JsonValue := do
  let filter := match parsed.param? 0 with
    | some (.obj members) => .obj members
    | _ => .obj []
  let latest ← runExcept (currentBlockNumber rows)
  newRpcFilter now (.logs filter) latest

def rpcNewBlockFilter (rows : Rows) (now : U64) : FilterM JsonValue := do
  let latest ← runExcept (currentBlockNumber rows)
  newRpcFilter now .blocks latest

def rpcNewPendingFilter (rows : Rows) (now : U64) : FilterM JsonValue := do
  let latest ← runExcept (currentBlockNumber rows)
  newRpcFilter now .pendingTransactions latest

section

variable (O : Oracle) (peers : BodyPeers) (rows : Rows)

/-- The filter with its range written over, as a query. -/
def logFilterResult (filter : JsonValue) (first last : U64) : Except String JsonValue :=
  match filter with
  | .obj members =>
    let members := JsonValue.setMember members "fromBlock" (quantity first.toNat)
    let members := JsonValue.setMember members "toBlock" (quantity last.toNat)
    (rpcGetLogs O peers rows (.obj [("params", .arr [.obj members])])).mapError RpcError.responseText
  | _ => throw "log filter must be an object"

/-- The headers of a range; a height without one is passed over. -/
def headersBetween (first last : U64) : List BlockHeader :=
  (SledStorage.heights first last).filterMap fun number => (rows.headerByNumber number).toOption

/-- What a filter reports between two heights. -/
def filterChanges (mempool : Mempool) (kind : RpcFilterKind) (first last : U64) :
    Except String JsonValue :=
  match kind with
  | .blocks => pure (.arr ((headersBetween rows first last).map fun header => hashText (header.hash O)))
  | .pendingTransactions => pure (.arr (mempool.transactions.map fun transaction =>
      hashText (transaction.rpcHash O)))
  | .logs filter => logFilterResult O peers rows filter first last

def rpcGetFilterChanges (mempool : Mempool) (now : U64) (parsed : JsonValue) : FilterM JsonValue := do
  let filterId ← runExcept (orInvalid "" (filterIdFromParams parsed))
  let latest ← runExcept (currentBlockNumber rows)
  let filter ← rpcFilterById now filterId
  let first := saturatingAdd filter.lastBlock 1
  if first.toNat > latest.toNat then return .arr []
  let result ← runExcept ((filterChanges O peers rows mempool filter.kind first latest).mapError .server)
  modify fun table => (table.pruneExpired now).update filterId fun entry =>
    { entry with lastBlock := latest, lastAccessedAt := now }
  return result

def rpcGetFilterLogs (now : U64) (parsed : JsonValue) : FilterM JsonValue := do
  let filterId ← runExcept (orInvalid "" (filterIdFromParams parsed))
  let filter ← rpcFilterById now filterId
  match filter.kind with
  | .logs filter =>
    let latest ← runExcept (currentBlockNumber rows)
    runExcept ((logFilterResult O peers rows filter 0 latest).mapError .server)
  | _ => throw (.invalidParams "filter is not a log filter")

def rpcUninstallFilter (now : U64) (parsed : JsonValue) : FilterM JsonValue := do
  let filterId ← runExcept (orInvalid "" (filterIdFromParams parsed))
  modify fun table => table.pruneExpired now
  let table ← get
  set { table with filters := table.filters.erase filterId }
  return .bool (table.filters[filterId]?).isSome

end

/-! ## Subscriptions -/

inductive WsKind where
  | newHeads
  | newPendingTransactions
  | logs
deriving DecidableEq

structure WsSubscription where
  kind : WsKind
  filter : Option JsonValue
  lastBlock : U64
  pendingSeen : List Hash256 := []

def newSubscription (rows : Rows) (kind : WsKind) (filter : Option JsonValue) : Rpc WsSubscription := do
  let latest ← currentBlockNumber rows
  pure { kind := kind, filter := filter, lastBlock := latest }

section

variable (O : Oracle) (peers : BodyPeers) (rows : Rows)

/-- A header as `newHeads` sends it. -/
def headJson (header : BlockHeader) : JsonValue :=
  .obj [("number", quantity header.number.toNat), ("hash", hashText (header.hash O)),
    ("parentHash", hashText header.parentHash), ("timestamp", quantity header.timestampSeconds.toNat)]

/-- The hashes that have not been sent, with those that have. -/
def unseenPending (seen : List Hash256) : List Hash256 → List Hash256 × List Hash256
  | [] => ([], seen)
  | hash :: rest =>
    if hash ∈ seen then unseenPending seen rest
    else
      let (unseen, seen) := unseenPending (hash :: seen) rest
      (hash :: unseen, seen)

/-- An error closes the connection. -/
def websocketSubscriptionResult (mempool : Mempool) (subscription : WsSubscription) :
    Rpc (List JsonValue × WsSubscription) := do
  let latest ← currentBlockNumber rows
  let first := saturatingAdd subscription.lastBlock 1
  match subscription.kind with
  | .newHeads =>
    if first.toNat > latest.toNat then return ([], subscription)
    return ((headersBetween rows first latest).map (headJson O), { subscription with lastBlock := latest })
  | .newPendingTransactions =>
    let (unseen, seen) := unseenPending subscription.pendingSeen
      (mempool.transactions.map fun transaction => transaction.rpcHash O)
    return (unseen.map hashText, { subscription with pendingSeen := seen })
  | .logs =>
    if first.toNat > latest.toNat then return ([], subscription)
    let result ← (logFilterResult O peers rows (subscription.filter.getD (.obj [])) first
      latest).mapError .server
    return ((result.asArray?).getD [], { subscription with lastBlock := latest })

end

end Blq
