import Blq.Json.Value
import Mathlib.Data.List.Infix

/-!
# The public gateway (`gateway/blq_rpc_proxy.py`)

The gateway takes a request or a batch, checks the methods, forwards it to a node that has shown
that it serves this network and has room on its disk, and removes the private parts of the node
information from the answers. Both sides are modelled: what the node answers
(`handleJsonRpcRequest`), with the handlers of the other methods as a parameter, and what the
gateway makes of it (`doPost`). One upstream is configured, as it is by default, and it can be
reached. The rate limit and the reading of the request come before.

An exception of the Python code is a missing value here: all of them get the same reply.
-/

namespace Blq.Gateway

open JsonValue

/-! ## The node -/

/-- The JSON library of the node: whether it can read what the gateway sends, what an identifier is
once it has read and written it, and the length of what it writes. -/
structure JsonLibrary where
  readable : JsonValue → Bool
  echo : JsonValue → JsonValue
  len : JsonValue → ℕ

/-- A result, or the code and the message of an error. -/
abbrev Outcome := Except (ℤ × String) JsonValue

/-- A node behind the gateway. The members of the information about itself may be others for the
gateway's own probe and for each request of a batch; `other` stands for the handlers of the other
methods. -/
structure Upstream where
  publicReadOnly : Bool
  miningApiEnabled : Bool
  probeInfo : List (String × JsonValue)
  nodeInfo : ℕ → List (String × JsonValue)
  other : JsonValue → Outcome

def maxRpcBatchRequests : ℕ := 20

/-- The members of an object are written in the order of their names. -/
def rpcResult (id result : JsonValue) : JsonValue :=
  .obj [("id", id), ("jsonrpc", .str "2.0"), ("result", result)]

def rpcError (id : JsonValue) (code : ℤ) (message : String) : JsonValue :=
  .obj [("error", .obj [("code", .int code), ("message", .str message)]), ("id", id),
    ("jsonrpc", .str "2.0")]

def isValidJsonRpcEnvelope (value : JsonValue) : Bool :=
  value.isDict && (value.get "jsonrpc").text? == some "2.0" && (value.get "method").text?.isSome

def isJsonRpcNotification : JsonValue → Bool
  | .obj members => (members.lookup "id").isNone
  | _ => false

def rpcMethodAllowedByPolicy (publicReadOnly miningApiEnabled : Bool) (method : String) : Bool :=
  if publicReadOnly && miningApiEnabled && ["blq_getBlockTemplate", "blq_submitBlock"].contains method
  then true
  else !publicReadOnly ||
    !(["blq_getBlockTemplate", "blq_submitBlock", "blq_sendTransaction"].contains method)

def method (request : JsonValue) : String := (request.get "method").text?.getD ""

/-- The two methods of `rpc_node_info`. -/
def isNodeInfoMethod (method : String) : Bool := method == "blq_nodeInfo" || method == "blq_health"

section Node

variable (L : JsonLibrary) (U : Upstream)

/-- The outcome of the request at the given place of a batch. -/
def handleJsonRpcMethod (place : ℕ) (parsed : JsonValue) : Outcome :=
  if !rpcMethodAllowedByPolicy U.publicReadOnly U.miningApiEnabled (method parsed) then
    .error (-32601, "method not available on read-only RPC")
  else if isNodeInfoMethod (method parsed) then .ok (.obj (U.nodeInfo place))
  else U.other parsed

def handleJsonRpcValue (place : ℕ) (parsed : JsonValue) : JsonValue :=
  let id := L.echo (parsed.get "id")
  match handleJsonRpcMethod U place parsed with
  | .ok result => rpcResult id result
  | .error (code, message) => rpcError id code message

/-- One entry of a batch; a notification is handled and not answered. -/
def handleBatchItem (place : ℕ) (request : JsonValue) : Option JsonValue :=
  if !isValidJsonRpcEnvelope request then
    some (rpcError (L.echo (request.get "id")) (-32600) "invalid request")
  else if isJsonRpcNotification request then none
  else some (handleJsonRpcValue L U place request)

/-- The text the node answers with, none if it is empty. -/
def handleJsonRpcRequest (parsed : JsonValue) : Option JsonValue :=
  if !L.readable parsed then some (rpcError .null (-32700) "parse error")
  else match parsed with
  | .arr requests =>
    if requests.isEmpty || decide (requests.length > maxRpcBatchRequests) then
      some (rpcError .null (-32600) "invalid request batch")
    else some (.arr (requests.zipIdx.filterMap fun (request, place) =>
      handleBatchItem L U place request))
  | request =>
    if !isValidJsonRpcEnvelope request then some (rpcError .null (-32600) "invalid request")
    else if isJsonRpcNotification request then none
    else some (handleJsonRpcValue L U 0 request)

end Node

/-! ## What the gateway lets through -/

def maxBody : ℕ := 256 * 1024

def publicMethods : List String :=
  ["eth_chainId", "net_version", "web3_clientVersion", "eth_blockNumber", "eth_gasPrice",
    "eth_maxPriorityFeePerGas", "eth_syncing", "eth_mining", "eth_hashrate", "eth_coinbase",
    "eth_feeHistory", "eth_getBalance", "eth_getBlockByNumber", "eth_getBlockByHash",
    "eth_getBlockTransactionCountByNumber", "eth_getBlockTransactionCountByHash",
    "eth_getTransactionByBlockNumberAndIndex", "eth_getTransactionByBlockHashAndIndex",
    "eth_getBlockReceipts", "eth_getTransactionCount", "eth_getTransactionByHash",
    "eth_getTransactionReceipt", "eth_getCode", "eth_getStorageAt", "eth_sendRawTransaction",
    "eth_call", "eth_estimateGas", "eth_getLogs", "blq_chainInfo", "blq_health", "blq_nodeInfo",
    "blq_pendingTransactions", "blq_powSpec"]

def miningMethods : List String := ["blq_getBlockTemplate", "blq_submitBlock"]

def transactionMethods : List String := ["eth_sendRawTransaction"]

def telemetryMethods : List String := ["blq_reportHashrate"]

def publicNodeInfoFields : List String :=
  ["chainId", "genesisHash", "consensusProfile", "blockTimeV2ActivationHeight",
    "blockTimeTargetSeconds", "blockTimeV2TargetSeconds", "blockTimeV2Window",
    "blockTimeV2FastMedianSeconds", "blockTimeV2SlowIntervalSeconds", "nodeMode", "miningEnabled",
    "templateServing", "currentHeight", "networkHeight", "syncState", "status", "isSyncing",
    "isMining", "explorer", "lastCanonicalBlockAt", "blockAgeSeconds", "liveness",
    "websocketEndpoint"]

def error (requestId : JsonValue) (code : ℤ) (message : String) : JsonValue :=
  .obj [("jsonrpc", .str "2.0"), ("id", requestId),
    ("error", .obj [("code", .int code), ("message", .str message)])]

def methodAllowed (method : String) : Bool :=
  publicMethods.contains method || miningMethods.contains method || telemetryMethods.contains method

def validEnvelope (item : JsonValue) : Bool :=
  item.isDict && (item.get "jsonrpc").text? == some "2.0" && (item.get "method").text?.isSome

/-- What is sent back: the status, and the value unless there is none. -/
structure Reply where
  status : ℕ
  body : Option JsonValue

/-- The free places for each kind of request. -/
structure Slots where
  template : Bool
  submit : Bool
  telemetry : Bool
  read : Bool
  transaction : Bool

/-- The refusal of an entry of the batch, if it is refused. -/
def refuseItem (item : JsonValue) : Option JsonValue :=
  if !validEnvelope item then some (error (item.get "id") (-32600) "invalid request")
  else if !methodAllowed (method item) then
    some (error (item.get "id") (-32601) "method not available on public RPC")
  else none

/-- Whether a request of the batch has one of the methods. -/
def anyMethod (methods : List String) (requests : List JsonValue) : Bool :=
  requests.any fun item => methods.contains (method item)

def busy (message : String) : Reply := ⟨503, some (error .null (-32005) message)⟩

/-- Everything before a request is forwarded: the reply to one that is not. -/
def refuse (slots : Slots) (request : JsonValue) : Option Reply :=
  let requests := request.asList
  if requests.isEmpty || decide (requests.length > 20) then
    some ⟨400, some (error .null (-32600) "invalid batch size")⟩
  else match requests.findSome? refuseItem with
  | some response => some ⟨200, some response⟩
  | none =>
    let template := anyMethod ["blq_getBlockTemplate"] requests
    let submit := anyMethod ["blq_submitBlock"] requests
    let transaction := anyMethod transactionMethods requests
    let telemetry := anyMethod telemetryMethods requests
    if template && submit then
      some ⟨400, some (error .null (-32600) "template and block submission must be sent separately")⟩
    else if template && !slots.template then
      some (busy "public mining template capacity is busy; retry shortly")
    else if submit && !slots.submit then
      some (busy "public mining submission capacity is busy; retry shortly")
    else if telemetry && requests.length != 1 then
      some ⟨400, some (error .null (-32600) "hashrate telemetry must be sent alone")⟩
    else if telemetry && !slots.telemetry then some (busy "public telemetry RPC is busy")
    else if !transaction && !telemetry && !(template || submit) && !slots.read then
      some (busy "public RPC read capacity is busy")
    else if transaction && !slots.transaction then some (busy "public transaction RPC is busy")
    else none

/-! ## What the gateway removes -/

/-- The public fields of the node information, which has to be a dictionary; the route is the
operator's. -/
def publicNodeInfoPayload (websocketEndpoint : String) (result : JsonValue) : Option JsonValue :=
  if result.isDict then
    some (.obj (setMember (publicNodeInfoFields.map fun key => (key, result.get key))
      "websocketEndpoint" (if websocketEndpoint.isEmpty then .null else .str websocketEndpoint)))
  else none

/-- The requests whose answers are to be reduced. -/
def requestsNodeInfo (item : JsonValue) : Bool :=
  item.isDict && (item.get "method").text? == some "blq_nodeInfo"

/-- The set of their identifiers. -/
def nodeInfoIds (requests : List JsonValue) : Option (List HashKey) :=
  (requests.filter requestsNodeInfo).mapM fun item => (item.get "id").hashKey?

/-- One answer. The identifier is looked up first, so that one without a hash is an error whatever
the answer is. -/
def sanitizeItem (websocketEndpoint : String) (ids : List HashKey) (item : JsonValue) :
    Option JsonValue :=
  match item with
  | .obj members => do
    let key ← (item.get "id").hashKey?
    match members.lookup "result" with
    | some result =>
      if ids.contains key then
        let payload ← publicNodeInfoPayload websocketEndpoint result
        pure (.obj (setMember members "result" payload))
      else pure item
    | none => pure item
  | item => pure item

def sanitizePublicRpcResponse (websocketEndpoint : String) (request response : JsonValue) :
    Option JsonValue := do
  let ids ← nodeInfoIds request.asList
  match response with
  | .arr responses =>
    let sanitized ← responses.mapM (sanitizeItem websocketEndpoint ids)
    pure (.arr sanitized)
  | response => sanitizeItem websocketEndpoint ids response

/-! ## The upstream -/

/-- What Python makes of a value as a text, of the letters of a text, and of a text as a number. -/
structure Python where
  str : JsonValue → String
  lower : String → String
  int : String → Option ℤ

/-- What the operator has set. -/
structure Settings where
  websocketEndpoint : String
  expectedChainId : ℤ
  expectedGenesisHash : String
  expectedConsensusProfile : String

section Upstream

variable (P : Python) (L : JsonLibrary) (S : Settings)

/-- `int(value)`; a float is cut off. -/
def pythonInt : JsonValue → Option ℤ
  | .bool b => some (if b then 1 else 0)
  | .int n => some n
  | .float q => some (q.num.tdiv q.den)
  | .str text => P.int text
  | .null | .arr _ | .obj _ => none

/-- `part in text` -/
def textIn (part text : String) : Bool := decide (part.toList <:+: text.toList)

/-- The upstream serves this network. An expected value that is empty is not compared, and a number
is compared by its value. -/
def identityMatches : JsonValue → Bool
  | .obj members =>
    let result := JsonValue.obj members
    (result.get "chainId").hashKey? == some (.num S.expectedChainId) &&
      (S.expectedGenesisHash.isEmpty ||
        P.lower (P.str ((members.lookup "genesisHash").getD (.str ""))) == S.expectedGenesisHash) &&
      (S.expectedConsensusProfile.isEmpty ||
        (result.get "consensusProfile").text? == some S.expectedConsensusProfile)
  | _ => false

/-- The disk of the upstream has room, or the upstream does not tell. -/
def storageAvailable (result : JsonValue) : Bool :=
  if !result.isDict then false
  else
    let storage := result.get "storage"
    if !storage.isDict then true
    else if (storage.get "diskPressure").text? == some "blocked" then false
    else match storage.get "filesystemFreeBytes", storage.get "filesystemReserveBytes" with
    | .null, _ | _, .null => true
    | free, reserve =>
      match pythonInt P free, pythonInt P reserve with
      | some free, some reserve => decide (free ≥ reserve)
      | _, _ => false

/-- An answer has the error of a node without room on its disk. -/
def responseIsStorageBlocked (payload : JsonValue) : Bool :=
  payload.asList.any fun item =>
    match item.get "error" with
    | .obj members =>
      let message := P.lower (P.str ((members.lookup "message").getD (.str "")))
      textIn "storage blocked" message || textIn "filesystem reserve unavailable" message
    | _ => false

/-- The probe of the gateway. -/
def identityRequest : JsonValue :=
  .obj [("jsonrpc", .str "2.0"), ("id", .str "gateway-identity"), ("method", .str "blq_nodeInfo"),
    ("params", .arr [])]

/-- The upstream has answered a probe as it should, now or not long ago (`fresh`). -/
def verifiedUpstream (fresh : Bool) (U : Upstream) : Bool :=
  fresh || match handleJsonRpcRequest L { U with nodeInfo := fun _ => U.probeInfo } identityRequest with
  | none => false
  | some payload =>
    decide (L.len payload ≤ maxBody) && identityMatches P S (payload.get "result") &&
      storageAvailable P (payload.get "result")

/-- What the upstream has answered, if it is not too large, and whether its probe still counts. An
answer about a full disk makes the gateway look for another upstream; where there is none it is
passed on, and the upstream is probed again before the next request. -/
def forwardJsonRpc (fresh : Bool) (U : Upstream) (request : JsonValue) :
    Option (Option JsonValue) × Bool :=
  if !verifiedUpstream P L S fresh U then (none, false)
  else
    match handleJsonRpcRequest L U request with
    | none => (some none, true)
    | some response =>
      if L.len response > maxBody then (none, true)
      else (some (some response), !responseIsStorageBlocked P response)

end Upstream

/-! ## The handler -/

def unavailable : Reply :=
  ⟨503, some (error .null (-32000) "upstream RPC unavailable; retry shortly")⟩

/-- The reply, and whether the probe of the upstream still counts after it. -/
def doPost (P : Python) (L : JsonLibrary) (S : Settings) (slots : Slots) (fresh : Bool) (U : Upstream)
    (request : JsonValue) : Reply × Bool :=
  match refuse slots request with
  | some reply => (reply, fresh)
  | none =>
    match forwardJsonRpc P L S fresh U request with
    | (none, fresh) => (unavailable, fresh)
    | (some none, fresh) => (⟨204, none⟩, fresh)
    | (some (some response), fresh) =>
      match sanitizePublicRpcResponse S.websocketEndpoint request response with
      | some value => (⟨200, some value⟩, fresh)
      | none => (unavailable, fresh)

end Blq.Gateway
