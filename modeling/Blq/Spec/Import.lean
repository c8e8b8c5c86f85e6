import Blq.Spec.Mempool
import Blq.Spec.Publication

/-!
# Importing a block from the network (`import_network_block`)

The node's storage and mempool, what it has handed to the gossip queue, and the block its
recovery thread works on. An import that starts a recovery returns before it is done;
`Node.finishRecovery` is the thread running to its end. An error leaves the node as it is at
that moment.
-/

namespace Blq

open Word Result

structure Node where
  storage : SledStorage
  mempool : Mempool
  /-- The blocks handed to `enqueue_block_gossip`, the oldest first. -/
  gossip : List Block := []
  /-- The tip of the recovery that is running. -/
  recovering : Option Block := none

abbrev NodeM := EStateM NodeError Node

def Node.withStorage (n : Node) (s : SledStorage) : Node := { n with storage := s }

/-- A storage operation of the node. -/
def onStorage {α : Type} (x : StoreM α) : NodeM α := fun n =>
  match x n.storage with
  | .ok a s => .ok a (n.withStorage s)
  | .error e s => .error e (n.withStorage s)

variable (O : Oracle) (R : Revm) (config : NodeConfig) (H : Host)

/-- The mempool without the given transactions. -/
def Node.removeIncluded (n : Node) (transactions : List Transaction) : Node :=
  { n with mempool := n.mempool.removeIncluded O (transactions.map fun t => t.hash O) }

def Node.enqueueBlockGossip (n : Node) (block : Block) : Node :=
  { n with gossip := n.gossip ++ [block] }

/-- The cleanup of the mempool, skipped when no transaction was included. -/
def cleanMempool (transactions : List Transaction) : NodeM Unit :=
  if transactions.isEmpty then pure () else modify fun n => n.removeIncluded O transactions

/-- Only one recovery runs at a time. -/
def Node.startRecovery (n : Node) : Node :=
  if n.recovering.isSome then n
  else
    let (s, tip) := startCandidateRecovery O n.storage
    { n with storage := s, recovering := tip }

/-- A competing branch that replaces the canonical chain. A failed publication is logged. -/
def importBranch (block : Block) (branch : CandidateBranch) : NodeM Unit := do
  match ← attempt (onStorage (stageAndPublishCandidate O R config H branch)) with
  | .ok _ =>
    cleanMempool O (branch.suffix.flatMap fun b => b.transactions)
    modify fun n => n.enqueueBlockGossip block
  | .error _ => pure ()

/-- A block on top of the canonical tip. -/
def importExtension (parent : BlockHeader) (block : Block) : NodeM Unit := do
  let n ← get
  runExcept (validateExtension O R config n.storage parent block)
  runExcept (H.storageCap n.storage)
  onStorage (insertBlock O R block)
  onStorage (drainOrphanBlocks O R config)
  cleanMempool O block.transactions
  modify fun n => n.enqueueBlockGossip block

def importNetworkBlock (block : Block) : NodeM Unit := do
  runExcept (validateLiveTimestampAdmission H block.header)
  runExcept (validateBlockTransactionAuth O config.requireSignedTransactions block)
  let n ← get
  match n.storage.headerByHash O (block.header.hash O) with
  | .ok _ => pure ()
  | .error _ =>
    let parent ← onStorage (readStore SledStorage.bestHeader)
    if block.header.number.toNat > (saturatingAdd parent.number 1).toNat then
      onStorage (writeStore fun s => s.storeOrphanBlock O block)
    else
      let candidate ←
        if extendsHeader O parent block then pure none
        else onStorage (queueCompetingBlockPending O config block)
      match candidate with
      | some branch => importBranch O R config H block branch
      | none =>
        -- The storage was unlocked, so the tip is read again.
        let parent ← onStorage (readStore SledStorage.bestHeader)
        if extendsHeader O parent block then importExtension O R config H parent block
        else
          onStorage (drainOrphanBlocks O R config)
          modify fun n => n.startRecovery O

/-- The first block of a fresh database, with the header of the configuration. -/
def initializeGenesisForConfig (header : BlockHeader) : StoreM Unit :=
  insertBlock O R { header := header, transactions := [], receipts := [] }

/-- The recovery thread runs to its end. -/
def Node.finishRecovery (n : Node) : Node :=
  match n.recovering with
  | none => n
  | some tip =>
    match candidateRecovery O R config H tip n.storage with
    | .ok _ s | .error _ s => { n with storage := s, recovering := none }

end Blq
