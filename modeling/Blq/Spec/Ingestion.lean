import Blq.Spec.Import

/-!
# The other ways a block comes in (`blq-node`, `blq-storage`)

Besides the network a block reaches the node through a miner's submission (`rpcSubmitBlock`),
through a recovery, which collects the bodies of a branch in a spool of its own
(`importRecoveryBlock`), and through the command that imports a block from a file (`importBlock`).

The spool keeps each body under the tip of its job and its height, and an index from the hash to
that row; a body is found by its hash through the index, or else by a scan of the rows. A lookup that
had to scan also repairs the index, which is an operation of its own here.
-/

namespace Blq

open Word Result

/-! ## The recovery spool -/

/-- The keys `recovery:` followed by the tip and the height. -/
abbrev SpoolRow := BitVec 320

instance : Std.TransOrd SpoolRow := inferInstance

def spoolRow (tipHash : Hash256) (number : U64) : SpoolRow := tipHash ++ number

structure RecoverySpool where
  /-- The bodies with their cumulative work. -/
  rows : Map SpoolRow (Block × U128) := ∅
  /-- `recovery:hash:` -/
  index : Map Hash256 SpoolRow := ∅

namespace RecoverySpool

variable (O : Oracle) (spool : RecoverySpool)

/-- `store_recovery_block_unflushed`. A body of the same job and height is overwritten, under
whichever hashes it is indexed. -/
def storeRecoveryBlock (tipHash : Hash256) (block : Block) (cumulativeWork : U128) : RecoverySpool :=
  let row := spoolRow tipHash block.header.number
  { rows := spool.rows.insert row (block, cumulativeWork)
    index := spool.index.insert (block.header.hash O) row }

/-- What `recovery_block_by_hash` finds, for all hashes at once: the row of the index, and without
an entry the first row with a body of that hash. -/
def byHash : Map Hash256 (Block × U128) :=
  let scanned : Map Hash256 (Block × U128) := spool.rows.toList.foldr
    (fun (_, body) found => found.insert (body.1.header.hash O) body) ∅
  spool.index.foldl (fun found hash row =>
    match spool.rows[row]? with
    | some body => found.insert hash body
    | none => found.erase hash) scanned

/-- `find_and_index_recovery_block`, for a hash without a usable index entry. -/
def repairIndex (hash : Hash256) : RecoverySpool :=
  match spool.rows.toList.find? fun (_, body) => body.1.header.hash O = hash with
  | some (row, _) => { spool with index := spool.index.insert hash row }
  | none => spool

/-- The rows of a job, by height. -/
def recoveryBlocksForTip (tipHash : Hash256) : List (SpoolRow × Block × U128) :=
  spool.rows.toList.filter fun (row, _) => row.extractLsb' 64 256 = tipHash

/-- The bodies of another job are stored under this one too. -/
def mergeJob (movedTip spoolTip : Hash256) : RecoverySpool :=
  (spool.recoveryBlocksForTip movedTip).foldl
    (fun spool (_, block, work) => spool.storeRecoveryBlock O spoolTip block work) spool

def clearRecoveryBlocksForTip (tipHash : Hash256) : RecoverySpool :=
  (spool.recoveryBlocksForTip tipHash).foldl (fun spool (row, block, _) =>
    { rows := spool.rows.erase row
      index := spool.index.erase (block.header.hash O) }) spool

/-- `recovery_block_by_hash`: through the index, or else by the scan, which leaves an index entry. -/
def recoveryBlockByHash (hash : Hash256) : Except StorageError (Block × U128) × RecoverySpool :=
  match spool.index[hash]? with
  | some row => (orNotFound spool.rows[row]?, spool)
  | none =>
    let repaired := spool.repairIndex O hash
    match repaired.index[hash]? with
    | some row => (orNotFound repaired.rows[row]?, repaired)
    | none => (throw .notFound, repaired)

/-- `recovery_blocks_for_tip`: the bodies of a job by height, each of which is indexed anew. -/
def listRecoveryBlocks (tipHash : Hash256) : List (Block × U128) × RecoverySpool :=
  let entries := spool.recoveryBlocksForTip tipHash
  ((entries.map Prod.snd).insertionSort fun a b => a.1.header.number.toNat ≤ b.1.header.number.toNat,
    entries.foldl (fun spool (row, block, _) =>
      { spool with index := spool.index.insert (block.header.hash O) row }) spool)

end RecoverySpool

/-- A node with its recovery spool. -/
structure FullNode extends Node where
  spool : RecoverySpool := {}

variable (O : Oracle) (R : Revm) (config : NodeConfig) (H : Host)

/-- The spool after a write, as the lookups of the database see it. -/
def FullNode.withSpool (n : FullNode) (spool : RecoverySpool) : FullNode :=
  { n with
    spool := spool
    storage := { n.storage with recoverySpool := spool.byHash O } }

/-! ## Recovery -/

/-- The canonical body below the expected height, if the block is on top of it. -/
def canonicalParent (s : SledStorage) (expectedHeight : U64) (block : Block) : Option Block :=
  if expectedHeight = 0 then none
  else s.blocks[expectedHeight - 1]?.filter fun parent =>
    parent.header.hash O = block.header.parentHash

/-- The parent of a recovered body and its cumulative work, zero if it cannot be told. -/
def recoveryParent (s : SledStorage) (expectedHeight : U64) (block : Block) :
    Except NodeError (BlockHeader × U128) :=
  let lookup : Except StorageError Block :=
    match canonicalParent O s expectedHeight block with
    | some parent => pure parent
    | none => s.blockByHash O block.header.parentHash
  match lookup with
  | .ok parent =>
    match s.candidateWork (parent.header.hash O) with
    | .ok work => pure (parent.header, work)
    | .error _ =>
      match canonicalWorkThroughNodeStorage s parent.header.number with
      | .ok work => pure (parent.header, work)
      | .error _ => pure (parent.header, 0)
  | .error _ =>
    match s.recoveryBlockByHash block.header.parentHash with
    | .ok (parent, work) => pure (parent.header, work)
    | .error _ => throw (.bail ("recovery parent " ++ Hash256.toHex block.header.parentHash ++
        " was not found in canonical storage or the durable spool"))

/-- The checks of `import_recovery_block`, and the work the body is stored with. -/
def validateRecoveryBlock (s : SledStorage) (expectedHeight : U64) (expectedParentHash : Hash256)
    (block : Block) : Except NodeError U128 := do
  validateLiveTimestampAdmission H block.header
  validateBlockTransactionAuth O config.requireSignedTransactions block
  if block.header.number ≠ expectedHeight then
    throw (.bail ("recovery body height " ++ toString block.header.number.toNat ++
      " does not match durable cursor " ++ toString expectedHeight.toNat))
  if block.header.parentHash ≠ expectedParentHash then
    throw (.bail "recovery body parent does not match durable cursor")
  let (parent, parentWork) ← recoveryParent O s expectedHeight block
  validateHeaderForStorage O s parent block.header
  validateDifficultyTarget O config s parent block.header
  if parentWork = 0 ∧ parent.number ≠ 0 then
    throw (.bail "recovery parent has no cumulative-work record")
  pure (addWork parentWork block.header)

def importRecoveryBlock (n : FullNode) (tipHash : Hash256) (expectedHeight : U64)
    (expectedParentHash : Hash256) (block : Block) : Except NodeError FullNode := do
  let work ← validateRecoveryBlock O config H n.storage expectedHeight expectedParentHash block
  pure (n.withSpool O (n.spool.storeRecoveryBlock O tipHash block work))

/-- The tip of a completed recovery becomes a candidate again; `spoolTip` is the job of its cursor. -/
def restoreCompletedCandidate (tipHash spoolTip : Hash256) : StoreM (BlockHeader × U128) := do
  let s ← get
  let found : Except StorageError Block :=
    match s.recoveryBlockByHash tipHash with
    | .ok (block, _) => pure block
    | .error _ =>
      match s.recoveryBlockByHash spoolTip with
      | .ok (block, _) => pure block
      | .error _ => s.blockByHash O tipHash
  let tip ← runExcept (liftStorage found)
  let branch ← runExcept (candidateBranchFromStorage O s tip)
  let ancestorWork ← readStore fun s => canonicalWorkThroughNodeStorage s branch.commonHeight
  let work := branch.suffix.foldl (fun work block => addWork work block.header) ancestorWork
  writeStore fun s => s.storeCandidateBlock O tip work
  pure (tip.header, work)

/-! ## Submissions -/

/-- What a submission finds outside the node: the upstream the template came from, which may take
the block or fail, and the progress of the synchronisation as a text. -/
structure SubmissionHost where
  upstream : Except String Bool
  syncPausedMessage : String

/-- The answers to a submission. All but the upstream's carry the number and the hash of the
block. -/
inductive SubmissionResult where
  | upstream
  | duplicate (canonical : Bool) (current : BlockHeader)
  | competing (canonical pending stale : Bool) (current : BlockHeader)
  | extended

/-- A missing tip is reported as a synchronisation that is still running. -/
def bestHeaderOrPaused (message : String) : NodeM BlockHeader := do
  let n ← get
  match n.storage.bestHeader with
  | .ok header => pure header
  | .error e =>
    if containsText e.message "was not found" then throw (.bail message) else throw (.storage e)

/-- The branch the queueing has returned, if any. -/
def publishReplacement (replacement : Option CandidateBranch) : NodeM Unit :=
  match replacement with
  | some branch => onStorage (stageAndPublishCandidate O R config H branch)
  | none => pure ()

/-- A submitted block that does not extend the tip. -/
def submitCompeting (block : Block) : NodeM SubmissionResult := do
  let replacement ← onStorage (queueCompetingBlockPending O config block)
  onStorage (drainOrphanBlocks O R config)
  publishReplacement O R config H replacement
  modify fun n => n.enqueueBlockGossip block
  let current ← bestHeaderOrPaused "node is re-synchronizing canonical chain; submission paused"
  let canonical := current.hash O == block.header.hash O
  let stale := !canonical && decide (current.number.toNat ≥ block.header.number.toNat)
  pure (.competing canonical (replacement.isSome && !stale) stale current)

/-- A submitted block on top of the tip. The orphans are not drained. -/
def submitExtension (parent : BlockHeader) (block : Block) : NodeM SubmissionResult := do
  let n ← get
  runExcept (validateExtension O R config n.storage parent block)
  runExcept (H.storageCap n.storage)
  onStorage (insertBlock O R block)
  modify fun n => (n.removeIncluded O block.transactions).enqueueBlockGossip block
  pure .extended

def rpcSubmitBlock (M : SubmissionHost) (block : Block) : NodeM SubmissionResult := do
  runExcept (validateLiveTimestampAdmission H block.header)
  runExcept (validateBlockTransactionAuth O config.requireSignedTransactions block)
  match M.upstream with
  | .error e => throw (.bail ("mining upstream submission failed; retrying: " ++ e))
  | .ok true => pure .upstream
  | .ok false =>
    let parent ← bestHeaderOrPaused M.syncPausedMessage
    let n ← get
    match n.storage.headerByHash O (block.header.hash O) with
    | .ok _ => pure (.duplicate (block.header.hash O == parent.hash O) parent)
    | .error _ =>
      if extendsHeader O parent block then submitExtension O R config H parent block
      else submitCompeting O R config H block

/-! ## The import command -/

def SledStorage.hasPersistedNativeAccounts (s : SledStorage) : Bool :=
  !s.balances.isEmpty || !s.nonces.isEmpty || !s.codes.isEmpty || !s.slots.isEmpty

/-- One height of `backfill_rewards`. -/
def backfillReward (number : U64) : StoreM Unit := do
  let block ← readStore fun s => s.blockByNumber number
  if !block.transactions.any isEvmTransaction then
    let timestamp ← readStore fun s => parentTimestamp s block.header
    let s ← get
    let (accounts, _, _) ← runExcept (simulateStateTransitionFromAccounts O s.accountSnapshot block
      timestamp)
    accounts.toList.forM fun (address, balance, nonce) =>
      modify fun s => s.putAccount address balance nonce
  modify fun s => s.setRewardIndexedTo number

def backfillRewards : StoreM Unit := do
  let s ← get
  match s.bestHeader with
  | .error .notFound => pure ()
  | .error e => throw (.storage e)
  | .ok header =>
    let best := header.number
    if s.rewardIndexedTo.toNat ≥ best.toNat then pure ()
    else if s.hasPersistedNativeAccounts then modify fun s => s.setRewardIndexedTo best
    else (SledStorage.heights (saturatingAdd s.rewardIndexedTo 1) best).forM (backfillReward O)

/-- An error with the step it happened in. -/
def during {α : Type} (step : String) (block : Block) (x : Except NodeError α) : Except NodeError α :=
  x.mapError fun e =>
    .bail ("validate " ++ step ++ " " ++ toString block.header.number.toNat ++ " failed: " ++ e.message)

/-- The import of a block from a file into a database that has its genesis block. The stored
genesis is checked against the configuration; the transactions' signatures are not checked. -/
def importBlock (verifyExpectedGenesis : SledStorage → Except NodeError Unit) (block : Block) :
    StoreM Unit := do
  let s ← get
  runExcept (verifyExpectedGenesis s)
  backfillRewards O
  let parent ← readStore SledStorage.bestHeader
  let s ← get
  runExcept (during "block" block (validateBlockForStorage O config s parent block))
  runExcept (during "difficulty" block (validateDifficultyTarget O config s parent block.header))
  runExcept (during "state" block (validateStateRoot O R s block))
  runExcept (H.storageCap s)
  insertBlock O R block

/-! ## Everything that takes blocks in -/

/-- The operations of a full node that take a block in, move blocks between its pools or make them
canonical. -/
inductive Ingestion where
  | networkImport (H : Host) (block : Block)
  | submission (H : Host) (M : SubmissionHost) (block : Block)
  | drainOrphans
  | competingBlock (block : Block)
  | recoveryImport (H : Host) (tipHash : Hash256) (expectedHeight : U64)
      (expectedParentHash : Hash256) (block : Block)
  | repairIndex (hash : Hash256)
  | mergeJob (movedTip spoolTip : Hash256)
  | clearJob (tipHash : Hash256)
  | restoreCandidate (tipHash spoolTip : Hash256)
  | startRecovery
  | finishRecovery (H : Host)
  | directExtension (branch : CandidateBranch)
  | stagedPublication (H : Host) (branch : CandidateBranch)
  | fileImport (H : Host) (verifyExpectedGenesis : SledStorage → Except NodeError Unit)
      (block : Block)
  | mempool (mempool : Mempool)

namespace FullNode

/-- The node after an operation on it, whether it succeeded or not. -/
def afterNode {α : Type} (n : FullNode) (x : NodeM α) : FullNode :=
  { n with toNode := finalState x n.toNode }

def afterStore {α : Type} (n : FullNode) (x : StoreM α) : FullNode := n.afterNode (onStorage x)

def ingest (n : FullNode) : Ingestion → FullNode
  | .networkImport H block => n.afterNode (importNetworkBlock O R config H block)
  | .submission H M block => n.afterNode (rpcSubmitBlock O R config H M block)
  | .drainOrphans => n.afterStore (drainOrphanBlocks O R config)
  | .competingBlock block => n.afterStore (queueCompetingBlock O R config block)
  | .recoveryImport H tipHash expectedHeight expectedParentHash block =>
    match importRecoveryBlock O config H n tipHash expectedHeight expectedParentHash block with
    | .ok n' => n'
    | .error _ => n
  | .repairIndex hash => n.withSpool O (n.spool.repairIndex O hash)
  | .mergeJob movedTip spoolTip => n.withSpool O (n.spool.mergeJob O movedTip spoolTip)
  | .clearJob tipHash => n.withSpool O (n.spool.clearRecoveryBlocksForTip O tipHash)
  | .restoreCandidate tipHash spoolTip => n.afterStore (restoreCompletedCandidate O tipHash spoolTip)
  | .startRecovery => { n with toNode := n.toNode.startRecovery O }
  | .finishRecovery H => { n with toNode := n.toNode.finishRecovery O R config H }
  | .directExtension branch => n.afterStore (commitDirectCandidateExtension O R config branch)
  | .stagedPublication H branch => n.afterStore (stageAndPublishCandidate O R config H branch)
  | .fileImport H verifyExpectedGenesis block =>
    -- the command runs while the node is stopped
    let n := n.afterStore (importBlock O R config H verifyExpectedGenesis block)
    { n with recovering := none }
  | .mempool mempool => { n with mempool := mempool }

end FullNode

end Blq
