import Mathlib.Data.List.Sort
import Blq.Monad.Basic
import Blq.Spec.Storage

/-!
# Orphans, candidates and the canonical chain (`blq-storage`)

Blocks whose parent is unknown wait in the orphan pool, blocks of competing branches in the
candidate pool, both under the hash of their header. A header or a block is found by its hash
on the canonical chain first and among the candidates after that.
-/

namespace Blq

open Word Result

/-- A lookup that may find nothing. -/
def orNotFound {α : Type} (x : Option α) : Except StorageError α :=
  match x with
  | some a => pure a
  | none => throw .notFound

namespace SledStorage

variable (O : Oracle) (s : SledStorage)

/-! ## Orphans -/

def maxOrphans : ℕ := 128
def maxOrphanBytes : ℕ := 2 * 1024 * 1024

/-- In the order of their heights, blocks of one height in the order of their hashes. -/
def orphanBlocks : List Block :=
  (s.orphans.toList.map fun (_, block) => block).insertionSort
    fun a b => a.header.number.toNat ≤ b.header.number.toNat

def removeOrphanBlock (hash : Hash256) : SledStorage := { s with orphans := s.orphans.erase hash }

/-- A full pool makes room by dropping its lowest block. -/
def storeOrphanBlock (block : Block) : Except StorageError SledStorage := do
  if O.jsonLen block > maxOrphanBytes then
    throw (.serialization "orphan block exceeds size limit")
  let orphans :=
    if s.orphans.size ≥ maxOrphans then
      match s.orphanBlocks with
      | oldest :: _ => s.orphans.erase (oldest.header.hash O)
      | [] => s.orphans
    else s.orphans
  pure { s with orphans := orphans.insert (block.header.hash O) block }

/-! ## Candidates -/

def maxCandidates : ℕ := 4096
def maxCandidateBytes : ℕ := 2 * 1024 * 1024

def storeCandidateBlock (block : Block) (cumulativeWork : U128) : Except StorageError SledStorage := do
  if O.jsonLen block > maxCandidateBytes then
    throw (.serialization "candidate block exceeds size limit")
  let hash := block.header.hash O
  if !s.candidates.contains hash ∧ s.candidates.size ≥ maxCandidates then
    throw (.io "candidate block pool is full")
  pure { s with
    candidates := s.candidates.insert hash block
    candidateWorks := s.candidateWorks.insert hash cumulativeWork }

def candidateBlockByHash (hash : Hash256) : Except StorageError Block :=
  orNotFound s.candidates[hash]?

def candidateWork (hash : Hash256) : Except StorageError U128 :=
  orNotFound s.candidateWorks[hash]?

/-- By height, at one height the most work first. -/
def candidateBlocksWithWork : Except StorageError (List (Block × U128)) := do
  let blocks ← s.candidates.toList.mapM fun (_, block) => do
    let work ← s.candidateWork (block.header.hash O)
    pure (block, work)
  pure (blocks.insertionSort fun a b =>
    a.1.header.number.toNat < b.1.header.number.toNat ∨
      (a.1.header.number = b.1.header.number ∧ b.2.toNat ≤ a.2.toNat))

/-- Everything under `candidate:`. -/
def clearCandidateBlocks : SledStorage :=
  { s with candidates := ∅, candidateWorks := ∅, quarantine := ∅ }

/-- Everything under `candidate:` of one block. -/
def removeCandidateBlock (hash : Hash256) : SledStorage :=
  { s with
    candidates := s.candidates.erase hash
    candidateWorks := s.candidateWorks.erase hash
    quarantine := s.quarantine.erase hash }

def removeCandidateBlocks (hashes : List Hash256) : SledStorage :=
  hashes.foldl removeCandidateBlock s

def quarantineCandidateTip (hash : Hash256) (reason : String) : SledStorage :=
  { s with quarantine := s.quarantine.insert hash reason }

/-- The candidate with the most work that is not quarantined, of those the lowest hash. -/
def latestCandidateTip : Except StorageError (Option (BlockHeader × U128)) := do
  let blocks ← s.candidateBlocksWithWork O
  pure (blocks.foldl (fun best (block, work) =>
    if s.quarantine.contains (block.header.hash O) then best
    else
      match best with
      | none => some (block.header, work)
      | some (header, currentWork) =>
        if work.toNat > currentWork.toNat ∨ (work = currentWork ∧
            (block.header.hash O).toNat < (header.hash O).toNat) then
          some (block.header, work)
        else best) none)

/-! ## Lookups by hash -/

/-- The keys are zero-padded heights, so the scan is already in the order of the heights. -/
def canonicalBlocks : List Block :=
  (s.blocks.toList.map fun (_, block) => block).insertionSort
    fun a b => a.header.number.toNat ≤ b.header.number.toNat

def blockByHash (hash : Hash256) : Except StorageError Block :=
  match s.canonicalBlocks.find? fun block => block.header.hash O = hash with
  | some block => pure block
  | none => s.candidateBlockByHash hash

def headerByHash (hash : Hash256) : Except StorageError BlockHeader :=
  match s.headers.toList.find? fun (_, header) => header.hash O = hash with
  | some (_, header) => pure header
  | none => do
    let block ← s.candidateBlockByHash hash
    pure block.header

def recoveryBlockByHash (hash : Hash256) : Except StorageError (Block × U128) :=
  orNotFound s.recoverySpool[hash]?

/-! ## Replacing the canonical chain -/

def clearCanonicalState : SledStorage :=
  { s with
    bestNumber := none
    headers := ∅
    blocks := ∅
    balances := ∅
    nonces := ∅
    codes := ∅
    slots := ∅
    evmSnapshots := ∅
    rewardIndexedTo := 0
    supplyTotals := (0, 0, 0) }

/-- The heights `first, …, last`. -/
def heights (first last : U64) : List U64 :=
  (List.range' first.toNat (last.toNat + 1 - first.toNat)).map (BitVec.ofNat 64)

/-- Each block follows the one before it; `err` is the error at the first one that does not. -/
def checkContiguous {ε : Type} (err : BlockHeader → BlockHeader → ε) (parent : BlockHeader) :
    List Block → Except ε Unit
  | [] => pure ()
  | block :: rest =>
    if block.header.number ≠ saturatingAdd parent.number 1 ∨
        block.header.parentHash ≠ parent.hash O then
      throw (err parent block.header)
    else checkContiguous err block.header rest

def notContiguous (parent child : BlockHeader) : StorageError :=
  .serialization ("suffix publication replacement is not contiguous at height " ++
    toString child.number.toNat ++ ": expected parent " ++ Hash256.toHex (parent.hash O) ++
    " at height " ++ toString parent.number.toNat ++ ", got parent " ++
    Hash256.toHex child.parentHash)

def removeBlock (block : Block) : SledStorage :=
  { s with
    blocks := s.blocks.erase block.header.number
    headers := s.headers.erase block.header.number }

def putBlock (block : Block) : SledStorage :=
  { s with
    blocks := s.blocks.insert block.header.number block
    headers := s.headers.insert block.header.number block.header }

/-- The headers and bodies above the ancestor replaced by the given blocks. -/
def replaceSuffix (removed replacement : List Block) : SledStorage :=
  replacement.foldl putBlock (removed.foldl removeBlock s)

/-- All accounts replaced by the given ones. -/
def replaceAccounts (native : NativeAccounts) (evm : EvmStateSnapshot) : SledStorage :=
  { s with
    balances := native.map fun _ (balance, _) => balance
    nonces := native.map fun _ (_, nonce) => nonce
    codes := evm.foldl (fun codes address account =>
      if account.code.isEmpty then codes else codes.insert address account.code) ∅
    slots := evm.foldl (fun slots address account =>
      account.storage.foldl (fun slots slot value =>
        if value = 0 then slots else slots.insert (storageKey address slot) value) slots) ∅ }

/-- One batch: the suffix above the ancestor, the accounts and the indexes. The manifest the
caller builds carries the replacement's tip, so the check against it always passes; the
manifest files are not part of the database. -/
def publishCanonicalSuffix (ancestor : BlockHeader) (replacement : List Block)
    (native : NativeAccounts) (evm : EvmStateSnapshot) (supplyTotals : U64 × U128 × U128) :
    Except StorageError SledStorage := do
  let best ← s.bestHeader
  if ancestor.number.toNat > best.number.toNat then
    throw (.serialization "suffix publication ancestor is not canonical")
  let stored ← s.headerByNumber ancestor.number
  if stored.hash O ≠ ancestor.hash O then
    throw (.serialization "suffix publication ancestor is not canonical")
  checkContiguous O (notContiguous O) ancestor replacement
  let some tip := replacement.getLast?
    | throw (.serialization "suffix publication manifest does not match replacement tip")
  let removed ← (heights (saturatingAdd ancestor.number 1) best.number).mapM s.blockByNumber
  let s := (s.replaceSuffix removed replacement).replaceAccounts native evm
  pure { s with
    evmSnapshots := (∅ : Map U64 EvmStateSnapshot).insert tip.header.number evm
    rewardIndexedTo := tip.header.number
    supplyTotals := supplyTotals
    bestNumber := some tip.header.number }

end SledStorage

end Blq
