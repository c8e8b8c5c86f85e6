import Blq.Spec.Node

/-!
# Block templates and sealing (`blq-miner`)

A template carries every header field except those mining determines: the nonce and, from
the proof-of-work hash of the header with that nonce, the mix hash. A miner that has used
up the nonces of a template may also change the extra nonce.
-/

namespace Blq

open Word

variable (O : Oracle)

structure BlockTemplate where
  header : BlockHeader
  transactions : List Transaction
  target : Hash256
  powAlgorithm : String
  powEpoch : U64
  epochSeed : Hash256

def BlockTemplate.intoUnsealedBlock (template : BlockTemplate) : Block where
  header := template.header
  transactions := template.transactions
  receipts := []

def buildEmptyTemplateWithGenesis (parent : BlockHeader) (beneficiary : Hash256)
    (timestampSeconds : U64) (genesisHash : Hash256) : BlockTemplate :=
  let header : BlockHeader :=
    { parentHash := parent.hash O
      number := parent.number + 1
      stateRoot := parent.stateRoot
      transactionsRoot := transactionsRoot O []
      receiptsRoot := receiptsRoot O []
      beneficiary := beneficiary
      difficultyTarget := parent.difficultyTarget
      baseFeePerGas := nextBaseFeePerGas parent
      gasLimit := parent.gasLimit
      gasUsed := 0
      timestampSeconds := timestampSeconds
      powAlgorithm := powAlgorithm O
      powEpoch := epochForHeight (parent.number + 1)
      extraNonce := 0
      mixHash := 0
      nonce := 0 }
  { target := header.difficultyTarget
    powAlgorithm := powAlgorithm O
    powEpoch := header.powEpoch
    epochSeed := epochSeed O header.powEpoch genesisHash
    header := header
    transactions := [] }

/-- The search for a nonce: `left` nonces from `nonce` on. -/
def sealFrom (template : BlockTemplate) (genesisHash : Hash256) : ℕ → ℕ → Option BlockTemplate
  | _, 0 => none
  | nonce, left + 1 =>
    let header := { template.header with nonce := BitVec.ofNat 64 nonce }
    let result := blqRxHash O header genesisHash
    let sealed_ := { template with header := { header with mixHash := result.mixHash } }
    if satisfiesPow result.finalHash template.target then some sealed_
    else sealFrom sealed_ genesisHash (nonce + 1) left

def sealEmptyTemplateWithGenesis (template : BlockTemplate) (nonceStart nonceLimit : U64)
    (genesisHash : Hash256) : Option BlockTemplate :=
  let stop := saturatingAdd nonceStart nonceLimit
  sealFrom O template genesisHash nonceStart.toNat (stop.toNat - nonceStart.toNat)

/-- The fields of a header that mining determines, written over a template's. -/
def BlockHeader.sealWith (header : BlockHeader) (nonce extraNonce : U64) (mixHash : Hash256) :
    BlockHeader :=
  { header with nonce := nonce, extraNonce := extraNonce, mixHash := mixHash }

def Block.sealWith (block : Block) (nonce extraNonce : U64) (mixHash : Hash256) : Block :=
  { block with header := block.header.sealWith nonce extraNonce mixHash }

end Blq
