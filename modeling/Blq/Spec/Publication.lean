import Blq.Spec.ForkChoice

/-!
# Publishing a branch (`blq-node`)

A branch that starts at the canonical tip is committed block by block. Any other one is
replayed in memory from an execution snapshot below its ancestor, and the replayed suffix
replaces the canonical one in a single write. `startCandidateRecovery` looks for the best
candidate; `candidateRecovery` is the thread it starts for it.
-/

namespace Blq

open Word Result

variable (O : Oracle) (R : Revm) (config : NodeConfig) (H : Host)

/-! ## Replaying in memory -/

def accountsFromRevmState (state : RevmState) : Except NodeError NativeAccounts :=
  state.accounts.toList.foldlM (fun accounts (address, account) =>
    match balanceToBix account.balance with
    | some balance => pure (accounts.insert address (balance, account.nonce))
    | none => throw (.bail "historical EVM balance exceeds BLQ range")) ∅

/-- The checks of a replayed block against its execution. -/
def validateReplayed (block : Block) (e : Executed) : Except NodeError Unit :=
  if block.header.gasUsed ≠ e.gasUsed ∨ block.receipts ≠ e.receipts ∨
      block.header.transactionsRoot ≠ transactionsRoot O block.transactions ∨
      block.header.receiptsRoot ≠ receiptsRoot O block.receipts ∨
      block.header.stateRoot ≠ e.stateRoot then
    throw (.bail ("candidate recovery bootstrap state validation failed at block " ++
      toString block.header.number.toNat))
  else pure ()

/-- The accounts and the executor state after the block. -/
def validateReplayStateRoot (nativeAccounts : NativeAccounts) (evmState : RevmState)
    (block : Block) (parentTimestamp : U64) : Except NodeError (NativeAccounts × RevmState) :=
  if block.transactions.any isEvmTransaction then do
    let simulation ← executeEvmStateTransitionInPlace O R evmState block parentTimestamp
    let expected ← evmStateRootFromRevmState O simulation.state
    validateReplayed O block ⟨simulation.receipts, simulation.gasUsed, expected⟩
    let accounts ← accountsFromRevmState simulation.state
    pure (accounts, simulation.state)
  else do
    let (accounts, receipts, gasUsed) ←
      simulateStateTransitionFromAccounts O nativeAccounts block parentTimestamp
    validateReplayed O block ⟨receipts, gasUsed, stateRootFromAccounts O accounts⟩
    pure (accounts, mergeNativeAccountsIntoRevmState evmState accounts)

structure ExecutionReplayOverlay where
  nativeAccounts : NativeAccounts
  evmState : RevmState
  parent : BlockHeader
  difficultyHistory : List BlockHeader

namespace ExecutionReplayOverlay

def fromSnapshot (snapshot : ExecutionSnapshot) (parent : BlockHeader)
    (difficultyHistory : List BlockHeader) : Except NodeError ExecutionReplayOverlay := do
  if snapshot.blockHash ≠ parent.hash O ∨ snapshot.height ≠ parent.number ∨
      snapshot.stateRoot ≠ parent.stateRoot then
    throw (.bail "execution snapshot does not match replay parent")
  let evmState := snapshot.evmAccounts.foldl (fun state address account =>
    state.putAccount address
      { nonce := account.nonce
        balance := account.balance.setWidth 256
        code := account.code
        storage := account.storage }) {}
  pure
    { nativeAccounts := snapshot.nativeAccounts
      evmState := mergeNativeAccountsIntoRevmState evmState snapshot.nativeAccounts
      parent := parent
      difficultyHistory := difficultyHistory }

/-- The history keeps the parent and the window before it. -/
def apply (overlay : ExecutionReplayOverlay) (genesisHash : Hash256) (block : Block) :
    Except NodeError ExecutionReplayOverlay := do
  validateBlockTransactionAuth O config.requireSignedTransactions block
  liftConsensus (validateBlockWithGenesisAndActivation O overlay.parent block genesisHash
    config.blockSizeActivationHeight)
  let expected ← expectedDifficultyTargetWithLookup config overlay.parent block.header fun hash =>
    match overlay.difficultyHistory.find? fun header => header.hash O = hash with
    | some header => pure header
    | none => throw (.bail "candidate replay difficulty history is incomplete")
  if block.header.difficultyTarget ≠ expected then
    throw (.bail ("candidate replay difficulty mismatch at block " ++
      toString block.header.number.toNat))
  let (nativeAccounts, evmState) ← validateReplayStateRoot O R overlay.nativeAccounts
    overlay.evmState block overlay.parent.timestampSeconds
  let history := overlay.difficultyHistory ++ [block.header]
  pure
    { nativeAccounts := nativeAccounts
      evmState := evmState
      parent := block.header
      difficultyHistory :=
        if history.length > blockTimeV2MedianWindow + 1 then history.tail else history }

end ExecutionReplayOverlay

/-! ## A branch on top of the canonical tip -/

/-- What the loop of `commit_direct_candidate_extension` carries along. -/
structure DirectProgress where
  parent : BlockHeader
  nativeAccounts : NativeAccounts
  evmState : RevmState

/-- One turn: the block is written at once, its accounts only after the last block. -/
def commitDirectBlock (genesisHash : Hash256) (p : DirectProgress) (block : Block) :
    StoreM DirectProgress := do
  runExcept (validateBlockTransactionAuth O config.requireSignedTransactions block)
  runExcept (liftConsensus (validateBlockWithGenesisAndActivation O p.parent block genesisHash
    config.blockSizeActivationHeight))
  let s ← get
  let expected ← runExcept (expectedDifficultyTargetWithLookup config p.parent block.header
    fun hash => liftStorage (s.headerByHash O hash))
  if block.header.difficultyTarget ≠ expected then
    throw (.bail ("direct recovery difficulty mismatch at block " ++
      toString block.header.number.toNat))
  let (nativeAccounts, evmState) ← runExcept (validateReplayStateRoot O R p.nativeAccounts
    p.evmState block p.parent.timestampSeconds)
  modify fun s => s.insertBlock block
  pure ⟨block.header, nativeAccounts, evmState⟩

/-- `persist_revm_state` inside a function of the node. -/
def persistState (state : RevmState) : StoreM Unit :=
  EStateM.adaptExcept NodeError.storage (persistRevmState state)

/-- Whether the branch was one on top of the tip. -/
def commitDirectCandidateExtension (branch : CandidateBranch) : StoreM Bool := do
  if branch.suffix.isEmpty then return false
  let s ← get
  let best ← readStore SledStorage.bestHeader
  if best.number ≠ branch.commonHeight ∨ best.hash O ≠ branch.commonHash then return false
  let p ← branch.suffix.foldlM (commitDirectBlock O R config (configuredGenesisHash O s))
    ⟨best, s.accountSnapshot, revmStateFromSled s⟩
  p.nativeAccounts.toList.forM fun (address, balance, nonce) =>
    modify fun s => s.putAccount address balance nonce
  persistState p.evmState
  modify fun s => (s.setRewardIndexedTo p.parent.number).removeCandidateBlocks
    (branch.suffix.map fun block => block.header.hash O)
  return true

/-! ## Any other branch -/

def supplyBackfillCheckpointInterval : U64 := 256

/-- One height of `backfill_supply_storage`. -/
def backfillSupplyStep (best : U64) (totals : U128 × U128) (number : U64) : StoreM (U128 × U128) := do
  let block ← readStore fun s => s.blockByNumber number
  let timestamp ← readStore fun s => parentTimestamp s block.header
  let delta := blockSupplyDelta block timestamp
  let total := saturatingAdd totals.1 delta.1
  let burned := saturatingAdd totals.2 delta.2
  if number % supplyBackfillCheckpointInterval = 0 ∨ number = best then
    modify fun s => { s with supplyTotals := (number, total, burned) }
  pure (total, burned)

def backfillSupplyStorage : StoreM Unit := do
  let s ← get
  match s.bestHeader with
  | .error .notFound => pure ()
  | .error e => throw (.storage e)
  | .ok header =>
    let best := header.number
    if s.supplyTotals.1.toNat > best.toNat then
      modify fun s => { s with supplyTotals := (0, 0, 0) }
    let s ← get
    let (indexedTo, total, burned) := s.supplyTotals
    if indexedTo.toNat ≥ best.toNat then pure ()
    else
      let _ ← (SledStorage.heights (saturatingAdd indexedTo 1) best).foldlM
        (backfillSupplyStep best) (total, burned)

/-- The supply after the canonical blocks above the ancestor are replaced. -/
def suffixSupplyTotals (ancestor previousBest : BlockHeader) (replacement : List Block) :
    StoreM (U64 × U128 × U128) := do
  let s ← get
  if s.supplyTotals.1.toNat < previousBest.number.toNat then
    backfillSupplyStorage
    let s ← get
    if s.supplyTotals.1.toNat < previousBest.number.toNat then
      throw (.bail "candidate publication deferred: supply index is incomplete")
  let s ← get
  let removed ← readStore fun s =>
    (SledStorage.heights (saturatingAdd ancestor.number 1) previousBest.number).mapM s.blockByNumber
  let (_, total, burned) := removed.foldl (fun (timestamp, total, burned) block =>
    let delta := blockSupplyDelta block timestamp
    (block.header.timestampSeconds, saturatingSub total delta.1, saturatingSub burned delta.2))
    (ancestor.timestampSeconds, s.supplyTotals.2)
  let (_, total, burned) := replacement.foldl (fun (timestamp, total, burned) block =>
    let delta := blockSupplyDelta block timestamp
    (block.header.timestampSeconds, saturatingAdd total delta.1, saturatingAdd burned delta.2))
    (ancestor.timestampSeconds, total, burned)
  pure (saturatingAdd ancestor.number (BitVec.ofNat 64 replacement.length), total, burned)

/-- What the replay hands to the publication. -/
structure ReplayedBranch where
  ancestor : BlockHeader
  activeTip : BlockHeader
  tip : BlockHeader
  nativeAccounts : NativeAccounts
  evmAccounts : EvmStateSnapshot

/-- What a replay takes along from the database, all of it at one moment. -/
structure CapturedReplay where
  snapshot : ExecutionSnapshot
  replayParent : BlockHeader
  replayHistory : List BlockHeader
  publicationAncestor : BlockHeader
  activeTip : BlockHeader
  genesisHash : Hash256

def captureReplay (s : SledStorage) (branch : CandidateBranch) : Except NodeError CapturedReplay := do
  let ancestor ← liftStorage (s.headerByNumber branch.commonHeight)
  if ancestor.hash O ≠ branch.commonHash then
    throw (.bail "candidate common ancestor does not match canonical storage")
  SledStorage.checkContiguous O
    (fun _ _ => .bail "candidate rejected: suffix parent linkage is not contiguous") ancestor
    branch.suffix
  H.memoryHeadroom
  let some snapshot := H.executionSnapshot s branch.commonHeight
    | throw (.bail "candidate replay deferred: no verified execution snapshot")
  let snapshotParent ← liftStorage (s.headerByNumber snapshot.height)
  if snapshotParent.hash O ≠ snapshot.blockHash ∨
      snapshotParent.stateRoot ≠ snapshot.stateRoot then
    throw (.bail "candidate replay deferred: execution snapshot is not canonical")
  let history ← difficultyHistoryHeadersWithLookup snapshotParent fun hash =>
    liftStorage (s.headerByHash O hash)
  if (saturatingSub branch.commonHeight snapshot.height).toNat + branch.suffix.length >
      maxCandidateReplaySuffix then
    throw (.bail "candidate rejected: compact snapshot replay exceeds live replay limit")
  if (branch.suffix.map fun block => block.canonicalBytes.length).sum > maxCandidateReplayBytes then
    throw (.bail "candidate rejected: suffix exceeds live replay memory budget")
  let activeTip ← liftStorage s.bestHeader
  pure ⟨snapshot, snapshotParent, history, ancestor, activeTip, configuredGenesisHash O s⟩

def replayCheckpointInterval : ℕ := 16

/-- One canonical body is read and applied. The memory is checked again every few blocks. -/
def replayBody (s : SledStorage) (captured : CapturedReplay) (overlay : ExecutionReplayOverlay)
    (number : U64) : Except NodeError ExecutionReplayOverlay := do
  let block ← liftStorage (s.blockByNumber number)
  let overlay ← overlay.apply O R config captured.genesisHash block
  if number.toNat % replayCheckpointInterval = 0 then H.memoryHeadroom
  pure overlay

/-- The suffix, from its `index`-th block on. -/
def replaySuffix (captured : CapturedReplay) :
    ℕ → List Block → ExecutionReplayOverlay → Except NodeError ExecutionReplayOverlay
  | _, [], overlay => pure overlay
  | index, block :: rest, overlay => do
    let overlay ← overlay.apply O R config captured.genesisHash block
    if (index + 1) % replayCheckpointInterval = 0 then H.memoryHeadroom
    replaySuffix captured (index + 1) rest overlay

/-- The suffix needs nothing of the database. -/
def finishReplay (branch : CandidateBranch) (captured : CapturedReplay)
    (overlay : ExecutionReplayOverlay) : Except NodeError ReplayedBranch := do
  let overlay ← replaySuffix O R config H captured 0 branch.suffix overlay
  let evmAccounts ← evmAccountsFromRevmState overlay.evmState
  let some last := branch.suffix.getLast? | throw (.bail "candidate branch is empty")
  if overlay.parent ≠ last.header then
    throw (.bail "candidate replay did not reach the supplied tip")
  pure ⟨captured.publicationAncestor, captured.activeTip, last.header, overlay.nativeAccounts,
    evmAccounts⟩

/-- The branch replayed on the snapshot's state; the database is only read. -/
def replayCandidate (s : SledStorage) (branch : CandidateBranch) :
    Except NodeError ReplayedBranch := do
  let captured ← captureReplay O H s branch
  let overlay ← ExecutionReplayOverlay.fromSnapshot O captured.snapshot captured.replayParent
    captured.replayHistory
  let overlay ← (SledStorage.heights (saturatingAdd overlay.parent.number 1)
    branch.commonHeight).foldlM (replayBody O R config H s captured) overlay
  finishReplay O R config H branch captured overlay

/-- The replayed branch becomes canonical if the tip is still the same and the branch still
replaces it. -/
def publishCandidate (branch : CandidateBranch) (replayed : ReplayedBranch) : StoreM Unit := do
  let current ← readStore SledStorage.bestHeader
  if current ≠ replayed.activeTip then
    throw (.bail "candidate publication deferred: active tip changed during replay")
  let ancestorWork ← readStore fun s => canonicalWorkThroughStorage s branch.commonHeight
  let candidateWork := branch.suffix.foldl (fun work block => addWork work block.header) ancestorWork
  let currentWork ← readStore fun s => canonicalWorkThroughStorage s current.number
  let candidate : Tip := ⟨candidateWork, replayed.tip.number, replayed.tip.hash O⟩
  if !publicationReplaces candidate ⟨currentWork, current.number, current.hash O⟩ then
    throw (.bail "candidate replay superseded by current canonical work")
  if !H.hasManifest then throw (.bail "candidate publication requires active manifest")
  let supplyTotals ← suffixSupplyTotals replayed.ancestor current branch.suffix
  writeStore fun s => s.publishCanonicalSuffix O replayed.ancestor branch.suffix
    replayed.nativeAccounts replayed.evmAccounts supplyTotals
  modify fun s => s.removeCandidateBlocks (branch.suffix.map fun block => block.header.hash O)

def stageAndPublishCandidate (branch : CandidateBranch) : StoreM Unit := do
  if ← commitDirectCandidateExtension O R config branch then pure ()
  else
    let s ← get
    let replayed ← runExcept (replayCandidate O R config H s branch)
    publishCandidate O H branch replayed

/-! ## Recovery -/

/-- One block of `import_direct_recovery_batch`. -/
def importDirectRecoveryBlock (block : Block) : StoreM Unit := do
  let parent ← readStore SledStorage.bestHeader
  if !extendsHeader O parent block then
    throw (.bail "direct recovery batch lost contiguous parent linkage")
  let s ← get
  runExcept (validateExtension O R config s parent block)
  insertBlock O R block

/-- The suffix in batches of 32, the disk being checked at the start of each; `left` is what is
left of the current batch. -/
def importDirectRecoveryBatches : ℕ → List Block → StoreM Unit
  | _, [] => pure ()
  | 0, block :: rest => do
    let s ← get
    runExcept (H.storageCap s)
    importDirectRecoveryBlock O R config block
    importDirectRecoveryBatches 31 rest
  | left + 1, block :: rest => do
    importDirectRecoveryBlock O R config block
    importDirectRecoveryBatches left rest

/-- The decision of `start_candidate_recovery`: the block the recovery thread is started for.
No recovery is running, and none has been completed or left behind by another run. Candidates
without enough work are dropped, all of them. -/
def startCandidateRecovery (s : SledStorage) : SledStorage × Option Block :=
  match s.latestCandidateTip O with
  | .ok (some (header, work)) =>
    match s.bestHeader with
    | .error _ => (s, none)
    | .ok canonicalTip =>
      match canonicalWorkThroughNodeStorage s canonicalTip.number with
      | .error _ => (s, none)
      | .ok currentWork =>
        let candidate : Tip := ⟨work, header.number, header.hash O⟩
        if !recoveryReplaces candidate
            ⟨currentWork, canonicalTip.number, canonicalTip.hash O⟩ then
          (s.clearCandidateBlocks, none)
        else
          match s.recoveryBlockByHash (header.hash O) with
          | .ok (block, _) => (s, some block)
          | .error _ =>
            match s.blockByHash O (header.hash O) with
            | .ok block => (s, some block)
            | .error _ => (s, none)
  | _ => (s.clearCandidateBlocks, none)

/-- A branch whose ancestor is the tip, first block included. -/
def isDirectExtension (s : SledStorage) (branch : CandidateBranch) : Bool :=
  match s.bestHeader with
  | .error _ => false
  | .ok tip =>
    tip.number == branch.commonHeight && tip.hash O == branch.commonHash &&
      branch.suffix.head?.any fun block => block.header.parentHash == tip.hash O

/-- The recovery thread. Its errors are only logged. -/
def candidateRecovery (tip : Block) : StoreM Unit := do
  let s ← get
  match candidateBranchFromStorage O s tip with
  | .error e =>
    if containsText e.message "candidate rejected" then
      modify fun s => s.quarantineCandidateTip (tip.header.hash O) e.message
    else pure ()
  | .ok branch =>
    if isDirectExtension O s branch then
      ignoreError (importDirectRecoveryBatches O R config H 0 branch.suffix)
    else ignoreError (stageAndPublishCandidate O R config H branch)

end Blq
