import Blq.Spec.Generation
import Blq.Spec.Publication

/-!
# Changing the chain of a generation (`blq-storage`, `blq-node`)

The operations of the node that write a generation's canonical chain, with their files: the
publication of a suffix and its journal, the extension of the tip by a branch, a replay of a whole
chain with the two operations built on it, and the recovery of a new generation; and the choice of
a generation when the node starts.
-/

namespace Blq

open Word Result

variable (O : Oracle) (R : Revm) (config : NodeConfig)

namespace Generation

/-! ## Publishing a suffix -/

variable (g : Generation)

def removeIndex (block : Block) : Generation :=
  block.transactions.foldl (fun g t => { g with
    transactions := match t.externalHash with
      | some hash => (g.transactions.erase (t.hash O)).erase hash
      | none => g.transactions.erase (t.hash O)
    receipts := (g.receipts.erase (t.rpcHash O)).erase (t.hash O) }) g

def addIndex (block : Block) : Except NodeError Generation :=
  block.transactions.zipIdx.foldlM (fun g (t, index) =>
    match block.receipts[index]? with
    | none => throw (missingReceipt block index)
    | some receipt =>
      let stored : StoredReceipt := ⟨receipt, block.header, index, t⟩
      let transactions := g.transactions.insert (t.hash O) t
      pure { g with
        transactions := match t.externalHash with
          | some hash => transactions.insert hash t
          | none => transactions
        receipts := (g.receipts.insert (t.rpcHash O) stored).insert (t.hash O) stored }) g

/-- The batch: the store's part, whose checks have passed before, and the index rows. -/
def suffixBatch (ancestor : BlockHeader) (replacement : List Block) (native : NativeAccounts)
    (evm : EvmStateSnapshot) (supplyTotals : U64 × U128 × U128) :
    Except NodeError Generation := do
  let store ← liftStorage
    (g.store.publishCanonicalSuffix O ancestor replacement native evm supplyTotals)
  let best ← liftStorage g.store.bestHeader
  let removed ← liftStorage ((SledStorage.heights (saturatingAdd ancestor.number 1)
    best.number).mapM g.store.blockByNumber)
  let indexed ← replacement.foldlM (fun g block => addIndex O g block)
    (removed.foldl (fun g block => removeIndex O g block) g)
  pure { indexed with store := store }

/-- The checks before the journal is written. -/
def checkSuffix (s : SledStorage) (ancestor : BlockHeader) (replacement : List Block)
    (target : GenerationManifest) : Except StorageError Unit := do
  let best ← s.bestHeader
  if ancestor.number.toNat > best.number.toNat then
    throw (.serialization "suffix publication ancestor is not canonical")
  let stored ← s.headerByNumber ancestor.number
  if stored.hash O ≠ ancestor.hash O then
    throw (.serialization "suffix publication ancestor is not canonical")
  SledStorage.checkContiguous O (SledStorage.notContiguous O) ancestor replacement
  let some tip := replacement.getLast?
    | throw (.serialization "suffix publication manifest does not match replacement tip")
  if ¬target.Describes O tip.header ∨ target.replayCheckpoint ≠ some tip.header.number then
    throw (.serialization "suffix publication manifest does not match replacement tip")

/-- A failed batch leaves the journal behind. -/
def publishCanonicalSuffix (ancestor : BlockHeader) (replacement : List Block)
    (native : NativeAccounts) (evm : EvmStateSnapshot) (supplyTotals : U64 × U128 × U128)
    (target : GenerationManifest) : DiskM Unit := do
  let g ← onDisk
  let some previous := g.manifest | corrupt "suffix publication requires an active manifest"
  readDatabase fun s => checkSuffix O s ancestor replacement target
  writeSuffixPublication ⟨previous, target⟩
  let g ← onDisk
  let batch ← runExcept (g.suffixBatch O ancestor replacement native evm supplyTotals)
  durably fun _ => batch
  syncSuffixReplayCheckpoint target
  writeGenerationManifest target
  writeGenerationPublication O target
  clearSuffixPublication

/-- The manifest `stage_and_publish_candidate` asks for. -/
def publicationTarget (m : GenerationManifest) (tip : BlockHeader) (profile : String) :
    GenerationManifest :=
  { m with
    status := .active
    canonicalHeight := tip.number
    canonicalHash := tip.hash O
    stateRoot := tip.stateRoot
    profileFingerprint := profile
    finalizedHeight := finalizedHeight tip.number
    replayCheckpoint := some tip.number }

/-- The publication at the end of `stage_and_publish_candidate`. -/
def publishSuffix (ancestor : BlockHeader) (replacement : List Block) (native : NativeAccounts)
    (evm : EvmStateSnapshot) (supplyTotals : U64 × U128 × U128) : DiskM Unit := do
  let g ← onDisk
  let some m := g.manifest | throw (.bail "candidate publication requires active manifest")
  let some tip := replacement.getLast? | throw (.bail "candidate branch is empty")
  publishCanonicalSuffix O ancestor replacement native evm supplyTotals
    (publicationTarget O m tip.header
      (consensusProfileForGenesis O (configuredGenesisHash O g.store)))

/-! ## A branch on top of the tip -/

/-- One turn: the block is written at once, its accounts only after the last block. -/
def commitDirectBlock (genesisHash : Hash256) (p : DirectProgress) (block : Block) :
    DiskM DirectProgress := do
  runExcept (validateBlockTransactionAuth O config.requireSignedTransactions block)
  runExcept (liftConsensus (validateBlockWithGenesisAndActivation O p.parent block genesisHash
    config.blockSizeActivationHeight))
  let g ← onDisk
  let expected ← runExcept (expectedDifficultyTargetWithLookup config p.parent block.header
    fun hash => liftStorage (g.store.headerByHash O hash))
  if block.header.difficultyTarget ≠ expected then
    throw (.bail ("direct recovery difficulty mismatch at block " ++
      toString block.header.number.toNat))
  let (nativeAccounts, evmState) ← runExcept (validateReplayStateRoot O R p.nativeAccounts
    p.evmState block p.parent.timestampSeconds)
  writeBlock O block
  pure ⟨block.header, nativeAccounts, evmState⟩

def removeCandidateBlock (hash : Hash256) : DiskM Unit := do
  updateStore fun s => { s with candidates := s.candidates.erase hash }
  updateStore fun s => { s with candidateWorks := s.candidateWorks.erase hash }
  updateStore fun s => { s with quarantine := s.quarantine.erase hash }

/-- Whether the branch was one on top of the tip. -/
def commitDirectCandidateExtension (branch : CandidateBranch) : DiskM Bool := do
  if branch.suffix.isEmpty then return false
  let g ← onDisk
  let best ← readDatabase SledStorage.bestHeader
  if best.number ≠ branch.commonHeight ∨ best.hash O ≠ branch.commonHash then return false
  let p ← branch.suffix.foldlM (commitDirectBlock O R config (configuredGenesisHash O g.store))
    ⟨best, g.store.accountSnapshot, revmStateFromSled g.store⟩
  persistAccounts p.nativeAccounts
  persistRevmState p.evmState
  updateStore fun s => s.setRewardIndexedTo p.parent.number
  refreshGenerationManifest O
  branch.suffix.forM fun block => removeCandidateBlock (block.header.hash O)
  return true

/-! ## Replaying a whole chain -/

def clearCanonicalState : DiskM Unit :=
  durably fun g => { g with
    store := g.store.clearCanonicalState
    transactions := ∅
    receipts := ∅ }

def replayBlock (block : Block) : DiskM Unit := do
  let parent ← readDatabase SledStorage.bestHeader
  let g ← onDisk
  runExcept (validateExtension O R config g.store parent block)
  insertBlock O R block

def replayCanonicalChain (chain : List Block) : DiskM Unit :=
  match chain with
  | [] => throw (.bail "cannot replay an empty chain")
  | genesis :: rest => do
    if genesis.header.number ≠ 0 then throw (.bail "canonical replay must begin at genesis")
    insertBlock O R genesis
    rest.forM (replayBlock O R config)

def rebuildCanonicalChain (replacement previous : List Block) : DiskM Unit := do
  clearCanonicalState
  match ← attempt (replayCanonicalChain O R config replacement) with
  | .ok _ => pure ()
  | .error reorgError =>
    clearCanonicalState
    match ← attempt (replayCanonicalChain O R config previous) with
    | .ok _ => pure ()
    | .error rollbackError =>
      throw (.bail ("candidate reorg failed: " ++ reorgError.message ++ "; rollback failed: " ++
        rollbackError.message))

def rollbackNode (height : U64) : DiskM Unit := do
  let g ← onDisk
  let some current := g.store.canonicalBlocks.getLast?
    | throw (.bail "cannot roll back an empty chain")
  if height.toNat ≥ current.header.number.toNat then
    throw (.bail ("rollback height " ++ toString height.toNat ++ " is not below current height " ++
      toString current.header.number.toNat))
  let replacement := rollbackReplacement g.store height
  if replacement.isEmpty then throw (.bail "rollback target is empty")
  clearCanonicalState
  match ← attempt (replayCanonicalChain O R config replacement) with
  | .ok _ => pure ()
  | .error err =>
    clearCanonicalState
    throw err

/-! ## A recovered generation -/

def minCandidateReplayFreeBytes : U64 := 256 * 1024 * 1024

/-- What `recover_snapshot` does in the new directory; the snapshot file it writes is not part of
the generation. -/
def recoverInto (generationId height : U64) (profile : String) (target : Block)
    (canonical : List Block) : DiskM Unit := do
  openStorage O
  replayCanonicalChain O R config canonical
  let best ← readDatabase SledStorage.bestHeader
  if best.hash O ≠ target.header.hash O ∨ best.stateRoot ≠ target.header.stateRoot then
    throw (.bail "snapshot recovery canonical verification failed")
  let block ← readDatabase fun s => s.blockByNumber height
  if block.header.hash O ≠ best.hash O then
    corrupt "snapshot block hash does not match canonical storage"
  writeGenerationManifest
    { generationId := generationId
      status := .verified
      canonicalHeight := height
      canonicalHash := best.hash O
      stateRoot := best.stateRoot
      profileFingerprint := profile
      finalizedHeight := finalizedHeight height
      replayCheckpoint := some height }

/-- The new generation; the active one is only read. `generationId` is the first identifier above
the active one whose directory does not exist, `available` the free space of the file system and
`reserve` what the configuration keeps of it. -/
def recoverSnapshot (active : Generation) (generationId height available reserve : U64) :
    Except NodeError Generation := do
  let canonical := active.store.canonicalBlocks
  let some target := canonical[height.toNat]?
    | throw (.bail "snapshot recovery height is absent from canonical storage")
  if available.toNat < (saturatingAdd reserve minCandidateReplayFreeBytes).toNat then
    throw (.bail "snapshot recovery deferred: insufficient filesystem budget")
  let profile := consensusProfileForGenesis O (configuredGenesisHash O active.store)
  match recoverInto O R config generationId height profile target
      (canonical.take (height.toNat + 1)) ⟨{}, []⟩ with
  | .ok _ d => pure d.current
  | .error e _ => throw e

/-! ## Opening -/

variable (expectedGenesis : Option Hash256)

def validateGenerationIdentity : Except NodeError Unit :=
  match expectedGenesis with
  | none => pure ()
  | some expected => do
    let header ← liftStorage (g.store.headerByNumber 0)
    if header.hash O ≠ expected then
      throw (.bail ("generation genesis " ++ Hash256.toHex (header.hash O) ++
        " does not match configured genesis " ++ Hash256.toHex expected))
    match g.manifest with
    | none => pure ()
    | some m =>
      if m.profileFingerprint ≠ consensusProfileForGenesis O expected then
        throw (.bail "generation consensus profile does not match configured genesis")

/-- The database of an archive node is not validated as a whole when it is opened. -/
def validateGenerationStorageOnOpen : DiskM Unit := do
  let best ← readDatabase SledStorage.bestHeader
  let tip ← readDatabase fun s => s.headerByNumber best.number
  if tip.hash O ≠ best.hash O then
    throw (.bail "archive generation best-header index is inconsistent")
  let _ ← verifyGenerationManifest O

/-- A generation is opened and checked, as a candidate of `NodeStorage::open`. -/
def openCandidate : DiskM Unit := do
  openStorage O
  let g ← onDisk
  runExcept (g.validateGenerationIdentity O expectedGenesis)
  validateGenerationStorageOnOpen O

/-- A candidate that was not accepted is marked. -/
def failGeneration : Generation :=
  { g with manifest := g.manifest.map fun m => { m with status := .failed } }

end Generation

end Blq
