import Blq.Json.Text
import Blq.Monad.Durable
import Blq.Spec.Rollback

/-!
# A generation on disk (`blq-storage`, `blq-node`)

The directory of a generation: the database, with the rows of the transactions and receipts, and
next to it the manifest, the publication record, the replay checkpoint and the journal of a suffix
publication. Files are replaced by a rename. Every single write of the database and every rename is
one durable step, so that what a crash or a failed write leaves can be said; only the removal of the
canonical rows before a replay is taken as one step.

The rows of the log index are left out: nothing here reads them. A generation holds no further
generations, so opening it only has its journal to settle.
-/

namespace Blq

open Word Result

/-! ## The files -/

inductive GenerationStatus where
  | active
  | staging
  | verified
  | retired
  | failed
deriving DecidableEq

structure GenerationManifest where
  generationId : U64
  status : GenerationStatus
  canonicalHeight : U64
  canonicalHash : Hash256
  stateRoot : Hash256
  profileFingerprint : String
  finalizedHeight : U64
  replayCheckpoint : Option U64
deriving DecidableEq

structure ReplayCheckpoint where
  generationId : U64
  height : U64
  blockHash : Hash256
  stateRoot : Hash256
deriving DecidableEq

structure GenerationPublicationRecord where
  generationId : U64
  manifestChecksum : Hash256
deriving DecidableEq

structure SuffixPublicationRecord where
  previousManifest : GenerationManifest
  targetManifest : GenerationManifest
deriving DecidableEq

/-- The value of a `receipt:` row. -/
structure StoredReceipt where
  receipt : Receipt
  header : BlockHeader
  transactionIndex : ℕ
  transaction : Transaction
deriving DecidableEq

structure Generation where
  store : SledStorage := {}
  /-- `transaction:` -/
  transactions : Map Hash256 Transaction := ∅
  /-- `receipt:` -/
  receipts : Map Hash256 StoredReceipt := ∅
  manifest : Option GenerationManifest := none
  publication : Option GenerationPublicationRecord := none
  checkpoint : Option ReplayCheckpoint := none
  journal : Option SuffixPublicationRecord := none

abbrev DiskM := EStateM NodeError (Durable Generation)

variable (O : Oracle) (R : Revm) (config : NodeConfig)

/-! ## Texts -/

def GenerationStatus.name : GenerationStatus → String
  | .active => "Active"
  | .staging => "Staging"
  | .verified => "Verified"
  | .retired => "Retired"
  | .failed => "Failed"

variable (m : GenerationManifest)

/-- The fields in their order; a hash is an array of its bytes. -/
def GenerationManifest.toJson : Bytes :=
  Json.object [("generation_id", Json.number m.generationId.toNat),
    ("status", Json.string m.status.name.toList),
    ("canonical_height", Json.number m.canonicalHeight.toNat),
    ("canonical_hash", Json.bytes (beBytes m.canonicalHash)),
    ("state_root", Json.bytes (beBytes m.stateRoot)),
    ("profile_fingerprint", Json.string m.profileFingerprint.toList),
    ("finalized_height", Json.number m.finalizedHeight.toNat),
    ("replay_checkpoint", m.replayCheckpoint.elim Json.null fun h => Json.number h.toNat)]

def manifestChecksum : Hash256 := hashBytes O m.toJson

def finalityConfirmationDepth : U64 := 6

def finalizedHeight (bestNumber : U64) : U64 := saturatingSub bestNumber finalityConfirmationDepth

def targetBlockTimeSeconds : U64 := 30

def consensusProfileForGenesis (genesisHash : Hash256) : String :=
  "blq-consensus-v2|chain=" ++ toString mainnetChainId.toNat ++ "|genesis=" ++
    Hash256.toHex genesisHash ++ "|pow=" ++ (genesisHeader O).powAlgorithm ++ "|target_time=" ++
    toString targetBlockTimeSeconds.toNat ++
    "|deadband=15..45|adjustment_cap=25|issuance=elapsed-time-0.1-blq-per-minute"

/-- Whether the header is the tip of the manifest. -/
def GenerationManifest.Describes (header : BlockHeader) : Prop :=
  m.canonicalHeight = header.number ∧ m.canonicalHash = header.hash O ∧
    m.stateRoot = header.stateRoot

instance (m : GenerationManifest) (header : BlockHeader) : Decidable (m.Describes O header) :=
  inferInstanceAs (Decidable (_ ∧ _ ∧ _))

namespace Generation

/-! ## Reading and writing -/

def updateStore (f : SledStorage → SledStorage) : DiskM Unit :=
  durably fun g => { g with store := f g.store }

def readDatabase {α : Type} (f : SledStorage → Except StorageError α) : DiskM α := do
  let g ← onDisk
  runExcept (liftStorage (f g.store))

def corrupt {α : Type} (text : String) : DiskM α := throw (.storage (.serialization text))

def writeGenerationManifest : DiskM Unit :=
  durably fun g => { g with manifest := some m }

def writeGenerationPublication : DiskM Unit :=
  durably fun g => { g with publication := some ⟨m.generationId, manifestChecksum O m⟩ }

def writeReplayCheckpoint (c : ReplayCheckpoint) : DiskM Unit :=
  durably fun g => { g with checkpoint := some c }

def writeSuffixPublication (record : SuffixPublicationRecord) : DiskM Unit :=
  durably fun g => { g with journal := some record }

def clearSuffixPublication : DiskM Unit := durably fun g => { g with journal := none }

def syncSuffixReplayCheckpoint : DiskM Unit :=
  match m.replayCheckpoint with
  | some height => writeReplayCheckpoint ⟨m.generationId, height, m.canonicalHash, m.stateRoot⟩
  | none => durably fun g => { g with checkpoint := none }

/-! ## The manifest -/

/-- The checks of the replay checkpoint. -/
def verifyReplayCheckpoint (g : Generation) (m : GenerationManifest) (best : BlockHeader) :
    Except StorageError Unit :=
  match m.replayCheckpoint, g.checkpoint with
  | some height, some c => do
    if c.generationId ≠ m.generationId ∨ c.height ≠ height ∨ c.height.toNat > best.number.toNat then
      throw (.serialization "generation replay checkpoint does not match its manifest")
    let header ← g.store.headerByNumber c.height
    if header.hash O ≠ c.blockHash ∨ header.stateRoot ≠ c.stateRoot then
      throw (.serialization "generation replay checkpoint does not match canonical storage")
  | some _, none =>
    throw (.serialization "generation manifest requires a missing replay checkpoint")
  | none, some _ => throw (.serialization "generation has an unreferenced replay checkpoint")
  | none, none => pure ()

/-- Whether the checksum of the publication record is not that of the manifest. -/
def stalePublication (g : Generation) (m : GenerationManifest) : Except StorageError Bool :=
  match g.publication with
  | some record =>
    if record.generationId ≠ m.generationId then
      throw (.serialization "generation publication record does not match its manifest")
    else pure (decide (record.manifestChecksum ≠ manifestChecksum O m))
  | none => pure false

/-- All checks of `verify_generation_manifest`: the manifest, and whether the publication record
is stale. -/
def checkGenerationManifest (g : Generation) : Except StorageError (GenerationManifest × Bool) := do
  let some m := g.manifest | throw (.serialization "generation manifest is missing")
  if m.status = .staging ∨ m.status = .retired ∨ m.status = .failed then
    throw (.serialization "generation manifest is not publishable")
  let best ← g.store.bestHeader
  if ¬m.Describes O best then
    throw (.serialization ("generation manifest does not match stored canonical tip (manifest " ++
      toString m.canonicalHeight.toNat ++ " " ++ Hash256.toHex m.canonicalHash ++ ", storage " ++
      toString best.number.toNat ++ " " ++ Hash256.toHex (best.hash O) ++ ")"))
  let stale ← g.stalePublication O m
  g.verifyReplayCheckpoint O m best
  pure (m, stale)

/-- A stale publication record is repaired once everything else has been checked. -/
def verifyGenerationManifest : DiskM GenerationManifest := do
  let g ← onDisk
  let (m, stale) ← runExcept (liftStorage (g.checkGenerationManifest O))
  if stale then writeGenerationPublication O m
  pure m

def recoverSuffixPublication : DiskM Unit := do
  let g ← onDisk
  match g.journal with
  | none => pure ()
  | some record =>
    let best ← readDatabase SledStorage.bestHeader
    if record.targetManifest.Describes O best then
      syncSuffixReplayCheckpoint record.targetManifest
      writeGenerationManifest record.targetManifest
      writeGenerationPublication O record.targetManifest
      clearSuffixPublication
    else if record.previousManifest.Describes O best then
      -- The batch was never committed, so the previous manifest still holds.
      clearSuffixPublication
    else corrupt "suffix publication journal does not match stored canonical tip"

/-- `SledStorage::open` -/
def openStorage : DiskM Unit := recoverSuffixPublication O

/-- The manifest follows the stored tip; its checkpoint height is left as it is. -/
def refreshedManifest (best : BlockHeader) : GenerationManifest :=
  { m with
    status := .active
    canonicalHeight := best.number
    canonicalHash := best.hash O
    stateRoot := best.stateRoot
    finalizedHeight := finalizedHeight best.number }

def refreshGenerationManifest : DiskM Unit := do
  let g ← onDisk
  match g.manifest with
  | none => pure ()
  | some m =>
    let best ← readDatabase SledStorage.bestHeader
    writeGenerationManifest (refreshedManifest O m best)
    writeGenerationPublication O (refreshedManifest O m best)

/-! ## Inserting a block -/

def putTransaction (hash : Hash256) (t : Transaction) : DiskM Unit :=
  durably fun g => { g with transactions := g.transactions.insert hash t }

def putReceipt (hash : Hash256) (receipt : StoredReceipt) : DiskM Unit :=
  durably fun g => { g with receipts := g.receipts.insert hash receipt }

/-- The source's index into the receipts is out of bounds. -/
def missingReceipt (block : Block) (index : ℕ) : NodeError :=
  .execution ("index out of bounds: the len is " ++ toString block.receipts.length ++
    " but the index is " ++ toString index)

/-- The rows of one transaction and of its receipt. -/
def indexTransaction (block : Block) (t : Transaction) (index : ℕ) : DiskM Unit := do
  putTransaction (t.hash O) t
  match t.externalHash with
  | some hash => putTransaction hash t
  | none => pure ()
  match block.receipts[index]? with
  | none => throw (missingReceipt block index)
  | some receipt =>
    putReceipt (t.rpcHash O) ⟨receipt, block.header, index, t⟩
    putReceipt (t.hash O) ⟨receipt, block.header, index, t⟩

/-- The body and the index rows of a block. -/
def writeBody (block : Block) : DiskM Unit := do
  updateStore fun s => { s with blocks := s.blocks.insert block.header.number block }
  block.transactions.zipIdx.forM fun (t, index) => indexTransaction O block t index

def putHeader (header : BlockHeader) : DiskM Unit := do
  updateStore fun s => { s with headers := s.headers.insert header.number header }
  updateStore fun s => { s with bestNumber := some header.number }

/-- `SledStorage::insert_block` -/
def writeBlock (block : Block) : DiskM Unit := do
  writeBody O block
  putHeader block.header

def putAccount (address : Address) (balance : Bix) (nonce : U64) : DiskM Unit := do
  updateStore fun s => { s with balances := s.balances.insert address balance }
  updateStore fun s => { s with nonces := s.nonces.insert address nonce }

def putSlot (address : Address) (slot value : Hash256) : DiskM Unit :=
  updateStore fun s => { s with
    slots := if value = 0 then s.slots.erase (storageKey address slot)
      else s.slots.insert (storageKey address slot) value }

def putEvmAccount (address : Address) (balance : Bix) (nonce : U64) (code : Bytes)
    (storage : Map Hash256 Hash256) : DiskM Unit := do
  putAccount address balance nonce
  updateStore fun s => { s with
    codes := if code.isEmpty then s.codes.erase address else s.codes.insert address code }
  let g ← onDisk
  let existing := g.store.slots.toList.filter fun (key, _) => (addressFromStorageKey key).1 == address
  existing.forM fun (key, _) =>
    if storage.contains (addressFromStorageKey key).2 then pure ()
    else updateStore fun s => { s with slots := s.slots.erase key }
  storage.toList.forM fun (slot, value) => putSlot address slot value

def persistRevmState (state : RevmState) : DiskM Unit :=
  state.accounts.toList.forM fun (address, account) =>
    match balanceToBix account.balance with
    | some balance => putEvmAccount address balance account.nonce account.code account.storage
    | none => corrupt "EVM balance exceeds BLQ account range"

def persistAccounts (accounts : NativeAccounts) : DiskM Unit :=
  accounts.toList.forM fun (address, balance, nonce) => putAccount address balance nonce

def persistHistoricalEvmSnapshot (number : U64) : DiskM Unit := do
  if number % evmStateSnapshotInterval ≠ 0 then return
  updateStore fun s => s.putEvmStateSnapshot number s.evmAccountSnapshot

/-- The writes of `NodeStorage::insert_block` to the database. -/
def insertRows (block : Block) : DiskM Unit := do
  let g ← onDisk
  let timestamp ← runExcept (liftStorage (parentTimestamp g.store block.header))
  if block.transactions.any isEvmTransaction then
    let simulation ← runExcept (liftStorage (asSerialization
      (simulateEvmStateTransitionFromState O R (revmStateFromSled g.store) block timestamp)))
    writeBlock O block
    persistRevmState simulation.state
  else
    let (accounts, _, _) ← runExcept (liftStorage (asSerialization
      (simulateStateTransitionFromAccounts O g.store.accountSnapshot block timestamp)))
    writeBlock O block
    persistAccounts accounts
  updateStore fun s => s.setRewardIndexedTo block.header.number
  persistHistoricalEvmSnapshot block.header.number

/-- `NodeStorage::insert_block` of a full node. -/
def insertBlock (block : Block) : DiskM Unit := do
  insertRows O R block
  refreshGenerationManifest O

end Generation

end Blq
