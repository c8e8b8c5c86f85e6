import Blq.Spec.Node
import Blq.Spec.Pools
import Blq.Spec.RawTransaction

/-!
# Competing branches (`blq-node`)

Checking blocks against the database, comparing branches by their cumulative work, collecting
the blocks of a branch back to the canonical chain, replaying it and making it canonical.
Storage-level functions run on the database as a state that survives an error (`StoreM`).

The node is an archive node with the full database, so nothing is pruned. What the machine
answers (clock, disk, memory, the execution snapshots on disk) is the `Host`.
-/

namespace Blq

open Word Result

structure NodeConfig where
  requireSignedTransactions : Bool
  blockSizeActivationHeight : Option U64
  blockTimeV2ActivationHeight : Option U64

/-- The state of the chain after a block, as written to disk from time to time. -/
structure ExecutionSnapshot where
  height : U64
  blockHash : Hash256
  stateRoot : Hash256
  nativeAccounts : NativeAccounts
  evmAccounts : EvmStateSnapshot

structure Host where
  /-- `unix_now` -/
  now : U64
  /-- `ensure_storage_cap` -/
  storageCap : SledStorage → Except NodeError Unit
  /-- `ensure_candidate_replay_memory_headroom` -/
  memoryHeadroom : Except NodeError Unit
  /-- `latest_execution_snapshot_at_or_before` for the chain's profile -/
  executionSnapshot : SledStorage → U64 → Option ExecutionSnapshot
  /-- Whether the active generation has a manifest. -/
  hasManifest : Bool

abbrev StoreM := EStateM NodeError SledStorage

/-- A read of the database. -/
def readStore {α : Type} (f : SledStorage → Except StorageError α) : StoreM α := do
  let s ← get
  runExcept (liftStorage (f s))

/-- A write of the database. -/
def writeStore (f : SledStorage → Except StorageError SledStorage) : StoreM Unit := do
  let s ← get
  let s' ← runExcept (liftStorage (f s))
  set s'

variable (O : Oracle) (R : Revm) (config : NodeConfig) (H : Host)

/-- `NodeStorage::insert_block` inside a function of the node. -/
def insertBlock (block : Block) : StoreM Unit :=
  EStateM.adaptExcept NodeError.storage (nodeInsertBlock O R block)

/-! ## Checks against the database -/

variable (s : SledStorage)

def configuredGenesisHash : Hash256 :=
  match s.headerByNumber 0 with
  | .ok header => header.hash O
  | .error _ => (genesisHeader O).hash O

def validateBlockForStorage (parent : BlockHeader) (block : Block) : Except NodeError Unit :=
  liftConsensus (validateBlockWithGenesisAndActivation O parent block (configuredGenesisHash O s)
    config.blockSizeActivationHeight)

def validateHeaderForStorage (parent header : BlockHeader) : Except NodeError Unit :=
  liftConsensus (validateHeaderWithGenesis O parent header (configuredGenesisHash O s))

def maxLiveTimestampFutureDriftSeconds : U64 := 30

def validateLiveTimestampAdmission (header : BlockHeader) : Except NodeError Unit :=
  if header.timestampSeconds.toNat >
      (saturatingAdd H.now maxLiveTimestampFutureDriftSeconds).toNat then
    throw (.bail "block timestamp exceeds the live admission future-drift limit")
  else pure ()

def difficultyHeaderByHash (hash : Hash256) : Except NodeError BlockHeader :=
  match s.headerByHash O hash with
  | .ok header => pure header
  | .error _ => liftStorage do
    let (block, _) ← s.recoveryBlockByHash hash
    pure block.header

/-- The headers before `cursor`, newest first. -/
def headersBefore (previousHeader : Hash256 → Except NodeError BlockHeader) :
    ℕ → BlockHeader → Except NodeError (List BlockHeader)
  | 0, _ => pure []
  | count + 1, cursor =>
    if cursor.number = 0 then pure []
    else do
      let previous ← previousHeader cursor.parentHash
      let rest ← headersBefore previousHeader count previous
      pure (previous :: rest)

def difficultyHistoryHeadersWithLookup (parent : BlockHeader)
    (previousHeader : Hash256 → Except NodeError BlockHeader) : Except NodeError (List BlockHeader) := do
  let before ← headersBefore previousHeader blockTimeV2MedianWindow parent
  pure (parent :: before).reverse

/-- The median of the intervals and the latest one. Without an interval the source's index is
out of bounds. -/
def difficultyHistoryIntervalsWithLookup (parent : BlockHeader)
    (previousHeader : Hash256 → Except NodeError BlockHeader) : Except NodeError (U64 × U64) := do
  let headers ← difficultyHistoryHeadersWithLookup parent previousHeader
  let intervals := (headers.zip headers.tail).map fun (earlier, later) =>
    maxWord (saturatingSub later.timestampSeconds earlier.timestampSeconds) 1
  let latest := intervals.getLast?.getD 1
  let sorted := intervals.insertionSort fun a b => a.toNat ≤ b.toNat
  match sorted[sorted.length / 2]? with
  | some median => pure (median, latest)
  | none => throw (.execution "index out of bounds: the len is 0 but the index is 0")

def expectedDifficultyTargetWithLookup (parent child : BlockHeader)
    (previousHeader : Hash256 → Except NodeError BlockHeader) : Except NodeError Hash256 :=
  if child.number = 0 then pure parent.difficultyTarget
  else if config.blockTimeV2ActivationHeight.any fun activation =>
      decide (activation.toNat ≤ child.number.toNat) then do
    let (median, latest) ← difficultyHistoryIntervalsWithLookup parent previousHeader
    pure (nextBlockDifficultyTargetV2 parent.difficultyTarget median latest)
  else
    pure (nextBlockDifficultyTarget parent.difficultyTarget
      (maxWord (saturatingSub child.timestampSeconds parent.timestampSeconds) 1))

def validateDifficultyTarget (parent child : BlockHeader) :
    Except NodeError Unit := do
  let expected ← expectedDifficultyTargetWithLookup config parent child (difficultyHeaderByHash O s)
  if child.difficultyTarget ≠ expected then
    throw (.bail ("block difficulty target does not match retarget rule: expected " ++
      Hash256.toHex expected ++ ", got " ++ Hash256.toHex child.difficultyTarget))

/-- The three checks of a block that is to extend the canonical tip. -/
def validateExtension (parent : BlockHeader) (block : Block) :
    Except NodeError Unit := do
  validateBlockForStorage O config s parent block
  validateDifficultyTarget O config s parent block.header
  validateStateRoot O R s block

/-- Whether a block follows the given header. -/
def extendsHeader (parent : BlockHeader) (block : Block) : Bool :=
  block.header.parentHash == parent.hash O && block.header.number == parent.number + 1

/-! ## Work -/

/-- `2 ^ 256 / (target + 1)`, at least one and at most `2 ^ 128 - 1`. -/
def workForTarget (target : Hash256) : U128 :=
  if target = maxTarget then 1
  else
    let denominator := target.toNat + 1
    let largest := 2 ^ 256 - 1
    let quotient := largest / denominator
    let quotient :=
      if largest % denominator = denominator - 1 ∧ quotient ≠ largest then quotient + 1 else quotient
    if quotient > 2 ^ 128 - 1 then maxValue 128 else BitVec.ofNat 128 (max quotient 1)

/-- The tip of a branch (`blq-network`). -/
structure BranchTip where
  height : U64
  hash : Hash256
  difficultyTarget : Hash256
  cumulativeWork : U128

namespace BranchTip

def new (height : U64) (hash difficultyTarget : Hash256) : BranchTip where
  height := height
  hash := hash
  difficultyTarget := difficultyTarget
  cumulativeWork := workForTarget difficultyTarget

def extend (tip : BranchTip) (hash difficultyTarget : Hash256) : BranchTip where
  height := saturatingAdd tip.height 1
  hash := hash
  difficultyTarget := difficultyTarget
  cumulativeWork := saturatingAdd tip.cumulativeWork (workForTarget difficultyTarget)

end BranchTip

def addWork (work : U128) (header : BlockHeader) : U128 :=
  saturatingAdd work (workForTarget header.difficultyTarget)

def canonicalWork (blocks : List Block) : U128 :=
  blocks.foldl (fun work block => addWork work block.header) 0

def canonicalWorkThroughNodeStorage (height : U64) : Except StorageError U128 :=
  (SledStorage.heights 0 height).foldlM (fun work number => do
    let block ← s.blockByNumber number
    pure (addWork work block.header)) 0

def canonicalWorkThroughStorage (height : U64) : Except StorageError U128 :=
  (SledStorage.heights 0 height).foldlM (fun work number => do
    let header ← s.headerByNumber number
    pure (addWork work header)) 0

/-! ## Which tip replaces which -/

structure Tip where
  work : U128
  number : U64
  hash : Hash256
deriving DecidableEq

/-- More work, or the same work at another height, or the lower hash. -/
def queueReplaces (candidate current : Tip) : Bool :=
  !(decide (candidate.work.toNat < current.work.toNat) ||
    (candidate.work == current.work && candidate.number == current.number &&
      decide (current.hash.toNat ≤ candidate.hash.toNat)))

/-- The decision of `queue_competing_block`. -/
def queueCompetingReplaces (candidate current : Tip) : Bool := queueReplaces candidate current

/-- The decision of `queue_competing_block_pending`. -/
def queuePendingReplaces (candidate current : Tip) : Bool := queueReplaces candidate current

/-- The decision of `stage_and_publish_candidate`: more work, or the same work and the lower
hash. -/
def publicationReplaces (candidate current : Tip) : Bool :=
  !(decide (candidate.work.toNat < current.work.toNat) ||
    (candidate.work == current.work && decide (current.hash.toNat ≤ candidate.hash.toNat)))

/-- The decision of `start_candidate_recovery`: more work. -/
def recoveryReplaces (candidate current : Tip) : Bool :=
  !decide (candidate.work.toNat ≤ current.work.toNat)

/-! ## The blocks of a branch -/

/-- Blocks that follow the canonical block `commonHash` at `commonHeight`. -/
structure CandidateBranch where
  commonHeight : U64
  commonHash : Hash256
  suffix : List Block

def maxCandidateReplaySuffix : ℕ := 8192
def maxCandidateReplayBytes : ℕ := 256 * 1024 * 1024

/-- A block of a branch, from the recovery spool or else by its hash. -/
def branchBlock (hash : Hash256) : Except NodeError Block :=
  match s.recoveryBlockByHash hash with
  | .ok (block, _) => pure block
  | .error _ =>
    match s.blockByHash O hash with
    | .ok block => pure block
    | .error _ => throw (.bail "candidate branch incomplete; waiting-for-provider")

/-- The parent of a branch block, and that the two are linked. -/
def branchParent (current : Block) : Except NodeError Block := do
  let parent ← branchBlock O s current.header.parentHash
  if saturatingAdd parent.header.number 1 ≠ current.header.number ∨
      parent.header.hash O ≠ current.header.parentHash then
    throw (.bail "candidate rejected: non-contiguous parent linkage")
  pure parent

/-- The loop of `candidate_branch_from_storage`; `remaining` is what is left of the limit on
the suffix. -/
def branchFrom (s : SledStorage) (remaining : ℕ) (visited : List Hash256) (bytes : ℕ)
    (suffix : List Block) (current : Block) : Except NodeError CandidateBranch :=
  let hash := current.header.hash O
  if hash ∈ visited then throw (.bail "candidate rejected: parent cycle detected")
  else
    match s.blocks[current.header.number]?.filter fun block => block.header.hash O = hash with
    | some canonical => pure
        { commonHeight := canonical.header.number
          commonHash := canonical.header.hash O
          suffix := suffix }
    | none =>
      let bytes := bytes + current.canonicalBytes.length
      match remaining with
      | 0 => throw (.bail "candidate rejected: branch suffix exceeds live replay limit")
      | remaining + 1 =>
        if bytes > maxCandidateReplayBytes then
          throw (.bail "candidate rejected: branch suffix exceeds live replay limit")
        else do
          let parent ← branchParent O s current
          branchFrom s remaining (hash :: visited) bytes (current :: suffix) parent

def candidateBranchFromStorage (tip : Block) : Except NodeError CandidateBranch :=
  branchFrom O s maxCandidateReplaySuffix [] 0 [] tip

/-- The loop of `candidate_replacement`. The ancestor is looked up in the given chain, and
there is no limit on the bytes. -/
def replacementFrom (s : SledStorage) (previousCanonical : List Block) (remaining : ℕ)
    (visited : List Hash256) (suffix : List Block) (current : Block) :
    Except NodeError CandidateBranch :=
  let hash := current.header.hash O
  if hash ∈ visited then throw (.bail "candidate rejected: parent cycle detected")
  else
    match previousCanonical.reverse.find? fun block => block.header.hash O = hash with
    | some canonical => pure
        { commonHeight := canonical.header.number
          commonHash := canonical.header.hash O
          suffix := suffix }
    | none =>
      match remaining with
      | 0 => throw (.bail "candidate rejected: branch suffix exceeds replay limit")
      | remaining + 1 => do
        let parent ← branchParent O s current
        replacementFrom s previousCanonical remaining (hash :: visited) (current :: suffix) parent

def candidateReplacement (tip : Block) (previousCanonical : List Block) :
    Except NodeError CandidateBranch :=
  replacementFrom O s previousCanonical maxCandidateReplaySuffix [] [] tip

def materializeCandidateReplacement (branch : CandidateBranch) (canonical : List Block) :
    Except NodeError (List Block) := do
  let some ancestor := canonical[branch.commonHeight.toNat]?
    | throw (.bail "candidate common ancestor is absent from canonical storage")
  if ancestor.header.hash O ≠ branch.commonHash then
    throw (.bail "candidate common ancestor does not match canonical storage")
  pure (canonical.take (branch.commonHeight.toNat + 1) ++ branch.suffix)

/-! ## Promotion by a replay of the whole chain -/

/-- One block of a replay, on top of the canonical tip. -/
def replayBlock (block : Block) : StoreM Unit := do
  let parent ← readStore SledStorage.bestHeader
  let s ← get
  runExcept (validateExtension O R config s parent block)
  insertBlock O R block

def replayCanonicalChain (chain : List Block) : StoreM Unit :=
  match chain with
  | [] => throw (.bail "cannot replay an empty chain")
  | genesis :: rest => do
    if genesis.header.number ≠ 0 then throw (.bail "canonical replay must begin at genesis")
    insertBlock O R genesis
    rest.forM (replayBlock O R config)

/-- The replay of the chain on an empty database, which is thrown away. -/
def validateReplacementInIsolation (replacement : List Block) : Except NodeError Unit := do
  if replacement.isEmpty then throw (.bail "candidate branch is empty")
  match (replayCanonicalChain O R config replacement).run {} with
  | .ok _ _ => pure ()
  | .error e _ => throw e

/-- A failed replay is answered by a replay of the chain before; if that succeeds, so does the
function. -/
def rebuildCanonicalChain (replacement previous : List Block) : StoreM Unit := do
  modify SledStorage.clearCanonicalState
  match ← attempt (replayCanonicalChain O R config replacement) with
  | .ok _ => pure ()
  | .error reorgError =>
    modify SledStorage.clearCanonicalState
    match ← attempt (replayCanonicalChain O R config previous) with
    | .ok _ => pure ()
    | .error rollbackError =>
      throw (.bail ("candidate reorg failed: " ++ reorgError.message ++ "; rollback failed: " ++
        rollbackError.message))

def promoteCandidateChain (tip : Block) (previousCanonical : List Block) : StoreM Unit := do
  let s ← get
  let branch ← runExcept (candidateReplacement O s tip previousCanonical)
  let replacement ← runExcept (materializeCandidateReplacement O branch previousCanonical)
  runExcept (validateReplacementInIsolation O R config replacement)
  rebuildCanonicalChain O R config replacement previousCanonical

/-! ## Queueing a block of another branch -/

/-- The work of a branch up to a known block. -/
def branchWork (hash : Hash256) (number : U64) : Except StorageError U128 :=
  match s.candidateWork hash with
  | .ok work => pure work
  | .error _ => canonicalWorkThroughNodeStorage s number

/-- The work of the branch up to a block whose parent is known. -/
def competingWork (branchParent header : BlockHeader) :
    Except StorageError U128 := do
  let parentWork ← branchWork s header.parentHash branchParent.number
  pure (addWork parentWork header)

/-- The part both queueing functions share: without its parent the block becomes an orphan,
else it is stored as a candidate with its cumulative work. -/
def storeCompetingBlock (block : Block) : StoreM (Option U128) := do
  runExcept (validateBlockTransactionAuth O config.requireSignedTransactions block)
  let s ← get
  match s.blockByHash O block.header.parentHash with
  | .error _ =>
    writeStore fun s => s.storeOrphanBlock O block
    pure none
  | .ok parent =>
    runExcept (validateHeaderForStorage O s parent.header block.header)
    let work ← readStore fun s => competingWork s parent.header block.header
    writeStore fun s => s.storeCandidateBlock O block work
    pure (some work)

def queueCompetingBlock (block : Block) : StoreM Bool := do
  match ← storeCompetingBlock O config block with
  | none => pure false
  | some candidateWork =>
    let s ← get
    let canonical := s.canonicalBlocks
    let some last := canonical.getLast? | throw (.bail "canonical chain is empty")
    let candidate : Tip := ⟨candidateWork, block.header.number, block.header.hash O⟩
    let current : Tip := ⟨canonicalWork canonical, last.header.number, last.header.hash O⟩
    if queueCompetingReplaces candidate current then
      promoteCandidateChain O R config block canonical
      pure true
    else pure false

def queueCompetingBlockPending (block : Block) : StoreM (Option CandidateBranch) := do
  match ← storeCompetingBlock O config block with
  | none => pure none
  | some candidateWork =>
    let current ← readStore SledStorage.bestHeader
    let currentWork ← readStore fun s => canonicalWorkThroughNodeStorage s current.number
    let candidate : Tip := ⟨candidateWork, block.header.number, block.header.hash O⟩
    if queuePendingReplaces candidate ⟨currentWork, current.number, current.hash O⟩ then
      let s ← get
      let branch ← runExcept (candidateBranchFromStorage O s block)
      pure (some branch)
    else pure none

/-! ## Draining the orphans -/

def maxP2pHeaders : ℕ := 512

/-- `str::contains` -/
def containsText (text part : String) : Bool := decide (part.toList <:+: text.toList)

/-- One orphan: inserted when it extends the tip, queued when its parent is known. The result
says whether it has left the pool. -/
def drainBlock (block : Block) : StoreM Bool := do
  let parent ← readStore SledStorage.bestHeader
  if extendsHeader O parent block then
    let s ← get
    runExcept (validateExtension O R config s parent block)
    insertBlock O R block
    modify fun s => s.removeOrphanBlock (block.header.hash O)
    pure true
  else
    let s ← get
    match s.headerByHash O block.header.parentHash with
    | .error _ => pure false
    | .ok _ =>
      match ← attempt (queueCompetingBlock O R config block) with
      | .ok _ =>
        modify fun s => s.removeOrphanBlock (block.header.hash O)
        pure true
      | .error e => if containsText e.message "was not found" then pure false else throw e

def drainPass : List Block → StoreM Bool
  | [] => pure false
  | block :: rest => do
    let progressed ← drainBlock O R config block
    let later ← drainPass rest
    pure (progressed || later)

def drainPasses : ℕ → StoreM Unit
  | 0 => pure ()
  | passes + 1 => do
    let s ← get
    let progressed ← drainPass O R config s.orphanBlocks
    if progressed then drainPasses passes else pure ()

def drainOrphanBlocks : StoreM Unit := drainPasses O R config maxP2pHeaders

end Blq
