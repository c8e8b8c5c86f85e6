import Blq.Spec.Import
import Blq.Spec.Miner

/-!
# Mining work (`rpc_block_template`, `websocket_subscription_result`)

A node that is behind takes its templates from an upstream; any other builds its own on its best
header, from the transactions of its pool, and keeps the last one for a few seconds. The subscription
keeps the height of the chain at the last poll and the parent of the last job it has sent.

`trusted_peer_quorum` never finds mining unsafe. The members of the answer other than the block are
not described.
-/

namespace Blq

open Word Result

variable (O : Oracle) (R : Revm) (config : NodeConfig)

/-! ## Templates -/

def mempoolTransactionExpirySeconds : U64 := 2 * 60 * 60

def localTemplateCacheTtlMillis : ℕ := 5000

def templateTooLarge : NodeError := .bail "block template cannot fit within the 2 MiB consensus limit"

def buildStatefulBlockFromAccounts (accounts : NativeAccounts) (block : Block)
    (transactions : List Transaction) (parentTimestamp : U64) : Except NodeError Block := do
  let block := { block with transactions := transactions }
  let (nextAccounts, receipts, gasUsed) ←
    simulateStateTransitionFromAccounts O accounts block parentTimestamp
  pure (block.withExecution O ⟨receipts, gasUsed, stateRootFromAccounts O nextAccounts⟩)

/-- The block with the first `count` transactions, or with the most of them that fit. -/
def buildBoundedStatefulBlock (s : SledStorage) (template : Block) (transactions : List Transaction) :
    ℕ → Except NodeError Block
  | 0 => do
    let block ← buildStatefulBlock O R s template []
    if block.canonicalBytes.length ≤ maxBlockBytes then return block
    throw templateTooLarge
  | count + 1 => do
    let block ← buildStatefulBlock O R s template (transactions.take (count + 1))
    if block.canonicalBytes.length ≤ maxBlockBytes then return block
    buildBoundedStatefulBlock s template transactions count

/-- A template that was built, with what it was built for. -/
structure LocalTemplateCache where
  parentHash : Hash256
  beneficiary : Hash256
  payload : Block
  onParent : payload.header.parentHash = parentHash

/-- A call of `blq_getBlockTemplate`: the node and the miner's address, the clock and the pool, and
the last template with its age. -/
structure TemplateCall where
  node : Node
  beneficiary : Hash256 := 0
  now : U64 := 0
  mempool : Mempool := {}
  cached : Option LocalTemplateCache := none
  elapsedMillis : ℕ := 0

def templateTimestamp (now : U64) (parent : BlockHeader) : U64 :=
  let earliest := saturatingAdd parent.timestampSeconds 1
  if now.toNat < earliest.toNat then earliest else now

/-- A new template; its transactions are taken from the pool without the expired and stale ones. -/
def buildTemplate (call : TemplateCall) (parent : BlockHeader) : Except NodeError Block := do
  let s := call.node.storage
  let template := buildEmptyTemplateWithGenesis O parent call.beneficiary
    (templateTimestamp call.now parent) (configuredGenesisHash O s)
  let target ← expectedDifficultyTargetWithLookup config parent template.header
    (difficultyHeaderByHash O s)
  let block := { template.intoUnsealedBlock with
    header := { template.header with difficultyTarget := target } }
  let pool := (call.mempool.removeExpired O call.now mempoolTransactionExpirySeconds).removeStaleNonces
    O s.nonce
  let transactions := pool.drainForBlock block.header.gasLimit
  if transactions.any isEvmTransaction then
    buildBoundedStatefulBlock O R s block transactions transactions.length
  else
    let block ← buildStatefulBlockFromAccounts O s.accountSnapshot block transactions
      parent.timestampSeconds
    if block.canonicalBytes.length > maxBlockBytes then throw templateTooLarge
    pure block

variable {O R config}

theorem parentHash_buildStatefulBlock {s : SledStorage} {block built : Block}
    {transactions : List Transaction} (h : buildStatefulBlock O R s block transactions = .ok built) :
    built.header.parentHash = block.header.parentHash := by
  obtain ⟨e, -, hbuilt⟩ := bind_eq_ok.mp h
  rw [← pure_eq_ok.mp hbuilt]
  rfl

theorem parentHash_buildBoundedStatefulBlock {s : SledStorage} {template block : Block}
    {transactions : List Transaction} {count : ℕ}
    (h : buildBoundedStatefulBlock O R s template transactions count = .ok block) :
    block.header.parentHash = template.header.parentHash := by
  induction count with
  | zero =>
    obtain ⟨built, hbuilt, h⟩ := bind_eq_ok.mp h
    split at h
    · rw [← pure_eq_ok.mp h]
      exact parentHash_buildStatefulBlock hbuilt
    · exact absurd h throw_ne_ok
  | succ count ih =>
    obtain ⟨built, hbuilt, h⟩ := bind_eq_ok.mp h
    split at h
    · rw [← pure_eq_ok.mp h]
      exact parentHash_buildStatefulBlock hbuilt
    · exact ih h

theorem parentHash_buildTemplate {call : TemplateCall} {parent : BlockHeader} {block : Block}
    (h : buildTemplate O R config call parent = .ok block) :
    block.header.parentHash = parent.hash O := by
  obtain ⟨target, -, h⟩ := bind_eq_ok.mp h
  dsimp only at h
  split at h
  · exact parentHash_buildBoundedStatefulBlock h
  · obtain ⟨built, hbuilt, h⟩ := bind_eq_ok.mp h
    obtain ⟨⟨accounts, receipts, gasUsed⟩, -, hbuilt⟩ := bind_eq_ok.mp hbuilt
    obtain ⟨-, h⟩ := ite_throw_eq_ok.mp h
    rw [← pure_eq_ok.mp h, ← pure_eq_ok.mp hbuilt]
    rfl

variable (O R config)

/-- The template that answers a call: the cached one if it is for the best header and the miner and
not too old, or a new one that takes its place. -/
def rpcBlockTemplate (call : TemplateCall) : Except NodeError LocalTemplateCache := do
  let parent ← liftStorage call.node.storage.bestHeader
  match call.cached.filter fun cached => cached.parentHash = parent.hash O ∧
      cached.beneficiary = call.beneficiary ∧ call.elapsedMillis < localTemplateCacheTtlMillis with
  | some cached => pure cached
  | none =>
    match h : buildTemplate O R config call parent with
    | .error e => throw e
    | .ok block => pure ⟨parent.hash O, call.beneficiary, block, parentHash_buildTemplate h⟩

/-! ## The subscription -/

structure MiningSubscription where
  lastBlock : U64
  lastMiningParent : Option Hash256 := none

/-- The message `mining.notify`; its job id is made of the height and the template's parent. -/
structure MiningJob where
  latest : U64
  template : Block

def MiningJob.parent (job : MiningJob) : Hash256 := job.template.header.parentHash

def newMiningSubscription (n : Node) : Except StorageError MiningSubscription := do
  let best ← n.storage.bestHeader
  pure { lastBlock := saturatingSub best.number 1 }

/-- A poll; `template` is the answer to `blq_getBlockTemplate`. -/
def websocketMiningResult (n : Node) (upstreamMode : Bool) (template : Option Block)
    (subscription : MiningSubscription) :
    Except StorageError (List MiningJob × MiningSubscription) := do
  let best ← n.storage.bestHeader
  let latest := best.number
  if latest.toNat < subscription.lastBlock.toNat then
    return ([], { subscription with lastBlock := latest })
  if latest = subscription.lastBlock ∧ upstreamMode = false then return ([], subscription)
  match template with
  | none => return ([], { subscription with lastBlock := latest })
  | some block =>
    let parent := block.header.parentHash
    if upstreamMode = true ∧ subscription.lastMiningParent = some parent then
      return ([], { subscription with lastBlock := latest })
    return ([⟨latest, block⟩], { lastBlock := latest, lastMiningParent := some parent })

/-- The template of a node that serves its own. -/
def ownTemplate (call : TemplateCall) : Option Block :=
  (rpcBlockTemplate O R config call).toOption.map LocalTemplateCache.payload

/-- The subscription and the last job sent for it after the polls of a run, each at the node as it
is then. -/
def minePolls (start : MiningSubscription × Option MiningJob) (polls : List TemplateCall) :
    Except StorageError (MiningSubscription × Option MiningJob) :=
  polls.foldlM (fun (subscription, job) call => do
    let (jobs, subscription) ←
      websocketMiningResult call.node false (ownTemplate O R config call) subscription
    pure (subscription, (jobs.getLast?).or job)) start

end Blq
