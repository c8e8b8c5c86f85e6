import Blq.Search.Bisection
import Blq.Spec.Publication
import Blq.Spec.Rpc

/-!
# States of earlier blocks and gas estimates (`blq-node`)

Requests about contracts name the block whose state they are about. The state of the tip is the one
the database holds; an earlier one is replayed from the last snapshot at or below the block, or from
nothing if there is none.

`eth_estimateGas` looks for the least gas limit with which a call succeeds by bisection.
-/

namespace Blq

open Word Result

/-! ## The state after a block -/

/-- The highest snapshot that is not above the block. -/
def SledStorage.evmStateSnapshotAtOrBefore (s : SledStorage) (number : U64) :
    Option (U64 × EvmStateSnapshot) :=
  s.evmSnapshots.toList.foldl (fun best (height, snapshot) =>
    if height.toNat > number.toNat then best
    else match best with
      | some (bestHeight, _) =>
        if height.toNat > bestHeight.toNat then some (height, snapshot) else best
      | none => some (height, snapshot)) none

def revmStateFromSnapshot (snapshot : EvmStateSnapshot) : RevmState :=
  snapshot.foldl (fun state address account =>
    state.putAccount address
      { nonce := account.nonce
        balance := account.balance.setWidth 256
        code := account.code
        storage := account.storage }) {}

/-- The same code as for the accounts of the database. -/
def applyAccountsToRevmState (state : RevmState) (accounts : NativeAccounts) : RevmState :=
  mergeNativeAccountsIntoRevmState state accounts

section

variable (O : Oracle) (R : Revm) (peers : BodyPeers) (s : SledStorage)

/-- The state after a block, from the state before it. -/
def replayState (state : RevmState) (block : Block) (parentTimestamp : U64) :
    Except NodeError RevmState :=
  if block.transactions.any isEvmTransaction then do
    let simulation ← simulateEvmStateTransitionFromState O R state block parentTimestamp
    pure simulation.state
  else do
    let accounts ← accountsFromRevmState state
    let (nextAccounts, _, _) ← simulateStateTransitionFromAccounts O accounts block parentTimestamp
    pure (applyAccountsToRevmState state nextAccounts)

/-- One height of the loop. A block before it that cannot be loaded counts as one of time zero. -/
def replayHistoricalHeight (state : RevmState) (height : U64) : Except NodeError RevmState := do
  let some block ← loadRpcBlock O peers (s.reader O) height
    | throw (.bail ("historical block body unavailable at " ++ toString height.toNat))
  let parentTimestamp ←
    if height = 0 then pure 0
    else do
      let parent ← loadRpcBlock O peers (s.reader O) (height - 1)
      pure ((parent.map fun parent => parent.header.timestampSeconds).getD 0)
  replayState O R state block parentTimestamp

def maxHistoricalEvmReplayBlocks : ℕ := 4096

def loadHistoricalEvmState (number : U64) : Except NodeError RevmState := do
  let (start, state) ← match s.evmStateSnapshotAtOrBefore number with
    | some (height, snapshot) => pure (height, revmStateFromSnapshot snapshot)
    | none =>
      if number.toNat ≤ maxHistoricalEvmReplayBlocks then pure (0, {})
      else throw (.bail "historical EVM snapshot is unavailable beyond 4096 blocks")
  (SledStorage.heights (saturatingAdd start 1) number).foldlM (replayHistoricalHeight O R peers s) state

def rpcEvmStateAt (historicalNumber : Option U64) : Except NodeError (BlockHeader × RevmState) :=
  match historicalNumber with
  | some number => do
    let header ← liftStorage (s.headerByNumber number)
    let state ← loadHistoricalEvmState O R peers s number
    pure (header, state)
  | none => do
    let header ← liftStorage s.bestHeader
    pure (header, revmStateFromSled s)

/-- `none` stands for the tip. -/
def resolveStateBlockTag (parsed : JsonValue) (index : ℕ) : Except NodeError (Option U64) := do
  let tag := ((parsed.param? index).bind JsonValue.text?).getD "latest"
  let best ← liftStorage s.bestHeader
  if tag = "latest" ∨ tag = "safe" ∨ tag = "finalized" ∨ tag = "pending" then pure none
  else if tag = "earliest" then pure (some 0)
  else do
    let number ← (parseHex 64 tag).mapError NodeError.bail
    if number = best.number then pure none
    else if number.toNat < best.number.toNat then pure (some number)
    else throw (.bail "requested EVM state block is ahead of the chain tip")

end

/-! ## Calls -/

/-- The call of an estimate. -/
structure EstimateCall where
  to_ : Option Address
  from_ : Address
  data : Bytes
  value : U128
  requestedLimit : Option U64
deriving DecidableEq

/-- A member that is a text has to be well formed. -/
def readMember {α : Type} (what : String) (parse : String → Except String α)
    (value : Option JsonValue) : Rpc (Option α) :=
  match value.bind JsonValue.text? with
  | none => pure none
  | some text => do
    let value ← orInvalid what (parse text)
    pure (some value)

def parseAddress (text : String) : Except String Address :=
  match Address.fromHex text with
  | some address => pure address
  | none => throw (hexHashError text)

def parseEstimateCall (parsed : JsonValue) : Rpc EstimateCall :=
  match parsed.param? 0 with
  | some (.obj members) => do
    let call := JsonValue.obj members
    let to_ ← readMember "invalid to address: " parseAddress (call.member? "to")
    let from_ ← readMember "invalid from address: " parseAddress (call.member? "from")
    let data ← readMember "invalid call data: " (fun text => (decodeHex text).mapError NodeError.message)
      ((call.member? "data").orElse fun _ => call.member? "input")
    let value ← readMember "invalid call value: " (parseHex 128) (call.member? "value")
    let requestedLimit ← readMember "invalid gas: " (parseHex 64) (call.member? "gas")
    pure ⟨to_, from_.getD 0, data.getD [], value.getD 0, requestedLimit⟩
  | _ => throw (.invalidParams "missing call object")

/-! ## Gas estimates -/

def maxEvmCallGas : U64 := 16777216

def isGasLimitFailure (error : NodeError) : Bool :=
  let message := String.ofList (error.message.toList.map Char.toLower)
  containsText message "gas floor" || containsText message "out of gas" || containsText message "gas limit"

def EstimateCall.transaction (call : EstimateCall) (header : BlockHeader) (state : RevmState)
    (gasLimit : U64) : Transaction where
  chainId := mainnetChainId
  transactionType := 2
  nonce := (state.account call.from_).nonce
  from_ := call.from_
  to_ := call.to_
  value := call.value
  gasLimit := gasLimit
  maxFeePerGas := header.baseFeePerGas
  maxPriorityFeePerGas := 0
  payload := call.data
  accessList := []
  signature := none
  externalHash := none

def EstimateCall.maxGas (call : EstimateCall) (header : BlockHeader) : U64 :=
  minWord (call.requestedLimit.getD (minWord header.gasLimit maxEvmCallGas)) header.gasLimit

/-- Nothing to execute: no data, no value and no code at the other end. -/
def EstimateCall.isEmptyCall (call : EstimateCall) (state : RevmState) : Bool :=
  call.to_.any fun to_ => call.data.isEmpty && call.value == 0 && (state.account to_).code.isEmpty

section

variable (R : Revm)

/-- One execution of the search, on a copy of the state. -/
def estimateProbe (header : BlockHeader) (state : RevmState) (call : EstimateCall) (candidate : ℕ) :
    Bisection.Probe RpcError :=
  match executeTransaction R state header (call.transaction header state (BitVec.ofNat 64 candidate)) with
  | .ok (output, _) =>
    if output.success then .enough
    else if output.gasUsed.toNat ≥ candidate then .short
    else .stop (.server "EVM execution reverted")
  | .error e => if isGasLimitFailure e then .short else .stop (.server e.message)

/-- The limits of the search are below the cap, so that the saturating arithmetic of the loop is that
of the numbers. -/
def estimateGas (header : BlockHeader) (state : RevmState) (call : EstimateCall) : Rpc ℕ := do
  if call.isEmptyCall state then return transferGas.toNat
  if (call.maxGas header).toNat > maxEvmCallGas.toNat then
    throw (.invalidParams "gas exceeds the EVM execution cap")
  if (call.maxGas header).toNat < transferGas.toNat then
    throw (.server "gas limit is below the intrinsic transfer gas")
  match ← Bisection.search (estimateProbe R header state call) transferGas.toNat
      (call.maxGas header).toNat (by decide) none with
  | some gas => pure gas
  | none => throw (.server "gas required exceeds allowance or always fails")

/-- The call of a request with the header and the state it is made on. -/
def estimateRequest (O : Oracle) (peers : BodyPeers) (s : SledStorage) (parsed : JsonValue) :
    Rpc (EstimateCall × BlockHeader × RevmState) := do
  let call ← parseEstimateCall parsed
  let historicalNumber ← orServerError (resolveStateBlockTag s parsed 1)
  let (header, state) ← orServerError (rpcEvmStateAt O R peers s historicalNumber)
  pure (call, header, state)

def rpcEstimateGas (O : Oracle) (peers : BodyPeers) (s : SledStorage) (parsed : JsonValue) :
    Rpc JsonValue := do
  let (call, header, state) ← estimateRequest R O peers s parsed
  let gas ← estimateGas R header state call
  pure (.str (hexQuantity gas))

end

end Blq
