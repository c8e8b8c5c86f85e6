import Blq.Monad.Basic
import Blq.Spec.Consensus

/-!
# What consensus validation accepts

The checks of `validate_header_with_genesis` and `validate_block_with_genesis_and_activation` as
structures, one field a check, and that the functions succeed exactly on them.
-/

namespace Blq

open Word Result

variable {O : Oracle}

/-- The checks on a header, under its parent. -/
structure HeaderAccepted (O : Oracle) (parent child : BlockHeader) (genesisHash : Hash256) :
    Prop where
  number : child.number = parent.number + 1
  timestamp : parent.timestampSeconds.toNat < child.timestampSeconds.toNat
  gasUsed : child.gasUsed.toNat ≤ child.gasLimit.toNat
  algorithm : child.powAlgorithm = powAlgorithm O
  epoch : child.powEpoch = epochForHeight child.number
  mixHash : child.mixHash = (blqRxHash O child genesisHash).mixHash
  work : satisfiesPow (blqRxHash O child genesisHash).finalHash child.difficultyTarget = true

/-- The checks on a block, under its parent's header. -/
structure BlockAccepted (O : Oracle) (parent : BlockHeader) (block : Block) (genesisHash : Hash256)
    (activationHeight : Option U64) : Prop where
  header : HeaderAccepted O parent block.header genesisHash
  parentHash : block.header.parentHash = parent.hash O
  size : blockSizeRuleActive block.header.number activationHeight = true →
    block.canonicalBytes.length ≤ maxBlockBytes
  receipts : block.transactions.length = block.receipts.length
  transactionsRoot : block.header.transactionsRoot = transactionsRoot O block.transactions
  receiptsRoot : block.header.receiptsRoot = receiptsRoot O block.receipts
  baseFee : block.header.baseFeePerGas = nextBaseFeePerGas parent
  fees : ∀ t ∈ block.transactions, validateTransactionFee t block.header.baseFeePerGas = .ok ()

theorem validateHeaderWithGenesis_eq_ok {parent child : BlockHeader} {genesisHash : Hash256}
    {u : Unit} : validateHeaderWithGenesis O parent child genesisHash = .ok u ↔
      HeaderAccepted O parent child genesisHash := by
  simp only [validateHeaderWithGenesis, validatePowFields, throw_bind, bind_eq_ok, ite_throw_eq_ok,
    mapError_eq_ok, pure_eq_ok, not_not, not_le, not_lt, Bool.not_eq_true']
  constructor
  · rintro ⟨hnumber, htimestamp, hgas, _, ⟨halgorithm, hepoch, hmix, -⟩, hwork, -⟩
    exact ⟨hnumber, htimestamp, hgas, halgorithm, hepoch, hmix, by simpa using hwork⟩
  · intro h
    exact ⟨h.number, h.timestamp, h.gasUsed, (), ⟨h.algorithm, h.epoch, h.mixHash, trivial⟩,
      by simp [h.work], trivial⟩

theorem validateBlockSize_eq_ok {block : Block} {u : Unit} :
    validateBlockSize block = .ok u ↔ block.canonicalBytes.length ≤ maxBlockBytes := by
  simp [validateBlockSize]

/-- **A block is accepted exactly if it passes every check.** -/
theorem validateBlock_eq_ok {parent : BlockHeader} {block : Block} {genesisHash : Hash256}
    {activation : Option U64} :
    validateBlockWithGenesisAndActivation O parent block genesisHash activation = .ok () ↔
      BlockAccepted O parent block genesisHash activation := by
  have hsize : ∀ {x : Except ConsensusError Unit},
      (if blockSizeRuleActive block.header.number activation = true then
        validateBlockSize block >>= fun _ => x else x) = .ok () ↔
      (blockSizeRuleActive block.header.number activation = true →
        block.canonicalBytes.length ≤ maxBlockBytes) ∧ x = .ok () := by
    intro x
    split
    · next hactive => simp [validateBlockSize_eq_ok, hactive]
    · next hinactive => simp [hinactive]
  simp only [validateBlockWithGenesisAndActivation, throw_bind, bind_eq_ok, ite_throw_eq_ok, hsize,
    not_not, forM_eq_ok, validateHeaderWithGenesis_eq_ok]
  constructor
  · rintro ⟨_, hheader, hparent, hsize, hreceipts, htransactionsRoot, hreceiptsRoot, hfee, hfees⟩
    exact ⟨hheader, hparent, hsize, hreceipts, htransactionsRoot, hreceiptsRoot, hfee, hfees⟩
  · intro h
    exact ⟨(), h.header, h.parentHash, h.size, h.receipts, h.transactionsRoot, h.receiptsRoot,
      h.baseFee, h.fees⟩

end Blq
