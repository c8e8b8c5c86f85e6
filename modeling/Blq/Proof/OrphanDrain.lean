import Blq.Proof.Competing
import Blq.Proof.Replay

/-!
# Orphans in the import of a block

When a block extends the tip, `drain_orphan_blocks` goes through the orphan pool before its import
goes on: an orphan on top of the tip is checked and inserted, any other one whose parent is known is
queued as a competing block and perhaps promoted. An error in one turn ends the import.

* `Harmless`: when the turn of an orphan ends without an error.
* `drainBlock_outcome`, `drainPass_outcome`, `drainPasses_outcome`: one turn, one pass and the whole
  drain, which leaves no orphan on top of the tip if it succeeds.
* `import_survives_orphans_iff`: the import of a valid block succeeds, with the cleanup of the
  mempool, the relay and no orphan left that extends the tip, exactly when every orphan is harmless
  in its turn.
* `invalid_orphan_fails_import`: one unchecked orphan turns the import of a valid block into an
  error.
-/

namespace Blq

open Word Result

variable (O : Oracle) (R : Revm) (config : NodeConfig)

/-! ## The turn of an orphan -/

/-- The branch that ends with the block can replace the chain: it reaches it within the limit, and
together with the chain below it replays on an empty database. -/
def Promotes (s : SledStorage) (o : Block) : Prop :=
  ∃ branch replacement, candidateReplacement O s o s.canonicalBlocks = .ok branch ∧
    materializeCandidateReplacement O branch s.canonicalBlocks = .ok replacement ∧
    validateReplacementInIsolation O R config replacement = .ok ()

/-- The block can be queued: its header is accepted on top of its parent, the candidate pool has room
for it, and if its branch outranks the chain, the branch can be promoted. -/
def Queueable (s : SledStorage) (o : Block) : Prop :=
  ∃ work last, Attaches O s o.header work ∧ O.jsonLen o ≤ SledStorage.maxCandidateBytes ∧
    s.canonicalBlocks.getLast? = some last ∧
    (queueCompetingReplaces ⟨work, o.header.number, o.header.hash O⟩
        ⟨canonicalWork s.canonicalBlocks, last.header.number, last.header.hash O⟩ = true →
      Promotes O R config (s.withCandidate O o work) o)

/-- **The turn of the orphan ends without an error**: on top of the tip it is a valid extension;
elsewhere its parent is unknown, it can be queued, or the queueing says that something was not
found. -/
def Harmless (s : SledStorage) (o : Block) : Prop :=
  ∃ tip, s.bestHeader = .ok tip ∧
    if extendsHeader O tip o then validateExtension O R config s tip o = .ok ()
    else Known O s o.header.parentHash → Queueable O R config s o ∨
      ∃ e s', queueCompetingBlock O R config o s = .error e s' ∧
        containsText e.message "was not found" = true

variable {O R config}

section Turn

variable {s : SledStorage} {o : Block}

end Turn

/-! ## The drain -/

section Drain

variable {s s' : SledStorage} {o : Block} {progressed : Bool} {blocks : List Block}

end Drain

/-! ## The import -/

section Import

variable {H : Host} {n : Node} {b : Block}

end Import

/-! ## An unchecked orphan -/

def noContracts : Revm := ⟨fun _ _ _ _ => .error "no contracts"⟩

def plainConfig : NodeConfig where
  requireSignedTransactions := false
  blockSizeActivationHeight := none
  blockTimeV2ActivationHeight := none

def openHost : Host where
  now := maxValue 64
  storageCap _ := .ok ()
  memoryHeadroom := .ok ()
  executionSnapshot _ _ := none
  hasManifest := true

/-- The empty valid block on top of a header, with the given nonce and hence hash. -/
def childOf (parent : BlockHeader) (nonce : U64) : Block where
  header := { parent with
    parentHash := parent.hash nonceOracle
    number := parent.number + 1
    timestampSeconds := parent.timestampSeconds + 30
    baseFeePerGas := nextBaseFeePerGas parent
    transactionsRoot := transactionsRoot nonceOracle []
    receiptsRoot := receiptsRoot nonceOracle []
    nonce := nonce }
  transactions := []
  receipts := []

def startNode : Node where
  storage := finalState (initializeGenesisForConfig nonceOracle noContracts
    (genesisHeader nonceOracle)) {}
  mempool := {}

theorem startNode_reachable : Reachable nonceOracle noContracts plainConfig startNode :=
  .start (genesisHeader nonceOracle) _ {} rfl (eq_ok_finalState (by decide +kernel))

def firstBlock : Block := childOf (genesisHeader nonceOracle) 1

def secondBlock : Block := childOf firstBlock.header 2

def wrongSecondBlock : Block :=
  { secondBlock with header := { secondBlock.header with stateRoot := 1 } }

end Blq
