import Blq.Spec.Primitives

/-!
# Consensus rules (`blq-consensus`, `blq-pow`)

The fee split, the block subsidy, the proof-of-work and header checks, the base fee
and the difficulty controllers. The byte-array routines behind the controllers are
folds over the 32 bytes of a target, in the order the source walks them.
-/

namespace Blq

open Word

/-! ## Fees and subsidy -/

structure FeeSplit where
  burnPercent : UInt8
  minerPercent : UInt8
deriving DecidableEq

/-- The burned part of a fee and the rest, which the miner keeps. -/
def FeeSplit.splitFee (split : FeeSplit) (fee : Bix) : Bix × Bix :=
  let burn := saturatingMul fee (BitVec.ofNat 128 split.burnPercent.toNat) / 100
  (burn, saturatingSub fee burn)

def blockRewardForIntervalBix (parentTimestamp childTimestamp : U64) : Bix :=
  let elapsed := minWord (saturatingSub childTimestamp parentTimestamp) maxRewardIntervalSeconds
  saturatingMul blqIssuancePerIntervalBix (elapsed.setWidth 128) / (10 * 60)

/-- The burned share grows linearly with utilization. The products stay far below
`2 ^ 64`, so they are computed on numbers. -/
def feeSplitForUtilization (utilizationBasisPoints : U64) : FeeSplit :=
  let bounded := min utilizationBasisPoints.toNat maxUtilizationBasisPoints.toNat
  let burnRange := maxBurnPercent - minBurnPercent
  let burn := minBurnPercent + burnRange * bounded / maxUtilizationBasisPoints.toNat
  { burnPercent := UInt8.ofNat burn, minerPercent := 100 - UInt8.ofNat burn }

def utilizationBasisPoints (gasUsed gasLimit : U64) : U64 :=
  if gasLimit = 0 then 0 else saturatingMul gasUsed maxUtilizationBasisPoints / gasLimit

/-! ## Errors -/

inductive ConsensusError where
  | gasUsedExceedsLimit
  | invalidProofOfWork
  | invalidProofOfWorkFields
  | invalidBlockNumber
  | invalidTimestamp
  | invalidParentHash
  | blockTooLarge
  | invalidTransactionsRoot
  | invalidReceiptsRoot
  | receiptTransactionMismatch
  | invalidTransactionChainId
  | maxFeeBelowBaseFee
  | priorityFeeExceedsMaxFee
  | unsupportedTransactionType
  | transactionPayloadTooLarge
  | accessListTooLarge
  | invalidBaseFee
deriving DecidableEq

def ConsensusError.message : ConsensusError → String
  | gasUsedExceedsLimit => "block gas used exceeds gas limit"
  | invalidProofOfWork => "proof of work hash is above target"
  | invalidProofOfWorkFields => "proof of work fields are invalid"
  | invalidBlockNumber => "child block number does not follow parent"
  | invalidTimestamp => "child timestamp is not greater than parent timestamp"
  | invalidParentHash => "block parent hash does not match parent header hash"
  | blockTooLarge => "block exceeds the maximum canonical size"
  | invalidTransactionsRoot => "transactions root does not match block transactions"
  | invalidReceiptsRoot => "receipts root does not match block receipts"
  | receiptTransactionMismatch => "receipts length does not match transactions length"
  | invalidTransactionChainId => "transaction chain id is not the Block mainnet chain id"
  | maxFeeBelowBaseFee => "transaction max fee per gas is below block base fee"
  | priorityFeeExceedsMaxFee => "transaction priority fee exceeds max fee"
  | unsupportedTransactionType => "transaction type is unsupported"
  | transactionPayloadTooLarge => "transaction payload exceeds the maximum size"
  | accessListTooLarge => "transaction access list exceeds the maximum size"
  | invalidBaseFee => "block base fee does not match parent utilization"

inductive StorageError where
  | notFound
  | io (text : String)
  | serialization (text : String)
deriving DecidableEq

/-- What the node's functions return as an error: one of the crates' errors passed on, or
a text of their own. `blockNotFound` is the text that names the missing block. -/
inductive NodeError where
  | consensus (e : ConsensusError)
  | storage (e : StorageError)
  | execution (text : String)
  | blockNotFound (hash : Hash256)
  | bail (text : String)
deriving DecidableEq

def StorageError.message : StorageError → String
  | notFound => "block was not found"
  | io text => "io error: " ++ text
  | serialization text => "serialization error: " ++ text

/-- `err.to_string()`. -/
def NodeError.message : NodeError → String
  | consensus e => e.message
  | storage e => e.message
  | execution text => text
  | blockNotFound hash => "block " ++ Hash256.toHex hash ++ " was not found"
  | bail text => text

/-- A consensus check inside a function of the node. -/
def liftConsensus {α : Type} (x : Except ConsensusError α) : Except NodeError α :=
  x.mapError NodeError.consensus

/-- A storage access inside a function of the node. -/
def liftStorage {α : Type} (x : Except StorageError α) : Except NodeError α :=
  x.mapError NodeError.storage

/-! ## Proof of work -/

variable (O : Oracle)

def powAlgorithm : String := if O.nativeRandomx then "BLQ-RX/2" else "BLQ-RX/1"

def powEpochLength : U64 := 2048

def epochForHeight (height : U64) : U64 := height / powEpochLength

def epochSeed (epoch : U64) (genesisHash : Hash256) : Hash256 :=
  O.blake3 ((powAlgorithm O).toUTF8.toList ++ "-EPOCH-SEED".toUTF8.toList ++ beBytes mainnetChainId ++
    beBytes epoch ++ beBytes genesisHash)

def blqRxHash (header : BlockHeader) (genesisHash : Hash256) : PowResult :=
  O.rxHash (epochSeed O (epochForHeight header.number) genesisHash) header.powPreimageBytes

inductive PowError where
  | unsupportedAlgorithm
  | invalidEpoch
  | invalidMixHash
deriving DecidableEq

def validatePowFields (header : BlockHeader) (genesisHash : Hash256) : Except PowError Unit := do
  if header.powAlgorithm ≠ powAlgorithm O then throw .unsupportedAlgorithm
  if header.powEpoch ≠ epochForHeight header.number then throw .invalidEpoch
  if header.mixHash ≠ (blqRxHash O header genesisHash).mixHash then throw .invalidMixHash

def satisfiesPow (hash target : Hash256) : Bool := decide (hash.toNat ≤ target.toNat)

def mapPowError : PowError → ConsensusError
  | .unsupportedAlgorithm | .invalidEpoch | .invalidMixHash => .invalidProofOfWorkFields

/-! ## Base fee -/

def nextBaseFeePerGas (parent : BlockHeader) : Bix :=
  let targetGas := maxWord (parent.gasLimit / eip1559ElasticityMultiplier) 1
  let parentBaseFee := parent.baseFeePerGas
  if parent.gasUsed = targetGas then parent.baseFeePerGas
  else if parent.gasUsed.toNat > targetGas.toNat then
    let gasDelta := (parent.gasUsed - targetGas).setWidth 128
    let change := maxWord (parentBaseFee * gasDelta / targetGas.setWidth 128 /
      eip1559BaseFeeMaxChangeDenominator) 1
    saturatingAdd parentBaseFee change
  else
    let gasDelta := (targetGas - parent.gasUsed).setWidth 128
    let change := parentBaseFee * gasDelta / targetGas.setWidth 128 /
      eip1559BaseFeeMaxChangeDenominator
    saturatingSub parentBaseFee change

/-! ## Headers and blocks -/

def validateHeaderWithGenesis (parent child : BlockHeader) (genesisHash : Hash256) :
    Except ConsensusError Unit := do
  if child.number ≠ parent.number + 1 then throw .invalidBlockNumber
  if child.timestampSeconds.toNat ≤ parent.timestampSeconds.toNat then throw .invalidTimestamp
  if child.gasUsed.toNat > child.gasLimit.toNat then throw .gasUsedExceedsLimit
  (validatePowFields O child genesisHash).mapError mapPowError
  if !satisfiesPow (blqRxHash O child genesisHash).finalHash child.difficultyTarget then
    throw .invalidProofOfWork

def blockSizeRuleActive (height : U64) (activationHeight : Option U64) : Bool :=
  activationHeight.any fun activation => decide (activation.toNat ≤ height.toNat)

def validateBlockSize (block : Block) : Except ConsensusError Unit :=
  if block.canonicalBytes.length > maxBlockBytes then throw .blockTooLarge else pure ()

/-- The access-list limits: entries, keys of one entry, keys altogether. -/
def accessListTooLarge (list : List TransactionAccessListItem) : Bool :=
  decide (list.length > maxAccessListEntries) ||
    list.any (fun item => decide (item.storageKeys.length > maxAccessListStorageKeysPerEntry)) ||
    decide ((list.map fun item => item.storageKeys.length).sum > maxAccessListStorageKeys)

def validateTransactionFee (transaction : Transaction) (baseFeePerGas : Bix) :
    Except ConsensusError Unit := do
  if transaction.chainId ≠ mainnetChainId then throw .invalidTransactionChainId
  if transaction.transactionType > 2 ∨
      (transaction.transactionType = 0 ∧ transaction.accessList ≠ []) then
    throw .unsupportedTransactionType
  if transaction.payload.length > maxTransactionPayloadBytes then throw .transactionPayloadTooLarge
  if accessListTooLarge transaction.accessList then throw .accessListTooLarge
  if transaction.maxFeePerGas.toNat < baseFeePerGas.toNat then throw .maxFeeBelowBaseFee
  if transaction.maxPriorityFeePerGas.toNat > transaction.maxFeePerGas.toNat then
    throw .priorityFeeExceedsMaxFee

def validateBlockWithGenesisAndActivation (parent : BlockHeader) (block : Block)
    (genesisHash : Hash256) (activationHeight : Option U64) : Except ConsensusError Unit := do
  validateHeaderWithGenesis O parent block.header genesisHash
  if block.header.parentHash ≠ parent.hash O then throw .invalidParentHash
  if blockSizeRuleActive block.header.number activationHeight then validateBlockSize block
  if block.transactions.length ≠ block.receipts.length then throw .receiptTransactionMismatch
  if block.header.transactionsRoot ≠ transactionsRoot O block.transactions then
    throw .invalidTransactionsRoot
  if block.header.receiptsRoot ≠ receiptsRoot O block.receipts then throw .invalidReceiptsRoot
  if block.header.baseFeePerGas ≠ nextBaseFeePerGas parent then throw .invalidBaseFee
  block.transactions.forM fun transaction =>
    validateTransactionFee transaction block.header.baseFeePerGas

/-! ## Difficulty -/

/-- The target whose bytes are `bs`. -/
def hashOfBytes (bs : Bytes) : Hash256 := BitVec.ofNat 256 (ofBeBytes bs)

/-- Thirty-two bytes `0xff`, the answer when a scaled target does not fit. -/
def maxTarget : Hash256 := maxValue 256

/-- Long division, most significant byte first. -/
def divideHashWithRemainder (hash : Hash256) (divisor : U64) : Hash256 × U64 :=
  let (out, remainder) := (beBytes hash).foldl (fun (out, remainder) byte =>
    let value := remainder * 256 + byte.toNat
    (out ++ [UInt8.ofNat (value / divisor.toNat)], value % divisor.toNat)) (([] : Bytes), 0)
  (hashOfBytes out, BitVec.ofNat 64 remainder)

/-- Multiplication from the least significant byte, carrying upwards. -/
def multiplyHashU64 (hash : Hash256) (multiplier : U64) : Hash256 :=
  let (out, carry) := (beBytes hash).foldr (fun byte (out, carry) =>
    let value := byte.toNat * multiplier.toNat + carry
    (UInt8.ofNat value :: out, value / 256)) (([] : Bytes), 0)
  if carry > 0 then maxTarget else hashOfBytes out

/-- Adds `carry` to the bytes of a target from the least significant one. -/
def addCarry (hash : Hash256) (carry : ℕ) : Hash256 :=
  let (out, carry) := (beBytes hash).foldr (fun byte (out, carry) =>
    let value := byte.toNat + carry % 256
    (UInt8.ofNat value :: out, carry / 256 + value / 256)) (([] : Bytes), carry)
  if carry > 0 then maxTarget else hashOfBytes out

def scaleTargetFraction (target : Hash256) (numerator denominator : U64) : Hash256 :=
  let (quotient, remainder) := divideHashWithRemainder target denominator
  addCarry (multiplyHashU64 quotient numerator)
    (remainder.toNat * numerator.toNat / denominator.toNat)

/-- As `scaleTargetFraction`, with a guard for a zero denominator and the scaled
remainder cut to 64 bits. -/
def scaleTarget (target : Hash256) (numerator denominator : U64) : Hash256 :=
  if denominator = 0 then maxTarget
  else
    let (quotient, remainder) := divideHashWithRemainder target denominator
    addCarry (multiplyHashU64 quotient numerator)
      (remainder.toNat * numerator.toNat / denominator.toNat % 2 ^ 64)

def nextBlockDifficultyTarget (currentTarget : Hash256) (actualSeconds : U64) : Hash256 :=
  if minAcceptableBlockTimeSeconds ≤ actualSeconds.toNat ∧
      actualSeconds.toNat ≤ maxAcceptableBlockTimeSeconds then currentTarget
  else if actualSeconds.toNat > maxAcceptableBlockTimeSeconds then
    scaleTargetFraction currentTarget (100 + maxDifficultyAdjustmentPercent) 100
  else scaleTargetFraction currentTarget (100 - maxDifficultyAdjustmentPercent) 100

/-- The second cadence controller, fed with the median of the last intervals and the
latest one. -/
def nextBlockDifficultyTargetV2 (currentTarget : Hash256)
    (medianIntervalSeconds latestIntervalSeconds : U64) : Hash256 :=
  if medianIntervalSeconds.toNat < blockTimeV2FastMedianSeconds then
    scaleTargetFraction currentTarget 75 100
  else if latestIntervalSeconds.toNat ≥ blockTimeV2SlowIntervalSeconds then
    scaleTargetFraction currentTarget blockTimeV2SlowCapNumerator blockTimeV2SlowCapDenominator
  else
    let cap := blockTimeV2NormalCapDenominator
    let numerator := saturatingMul medianIntervalSeconds cap
    let denominator := saturatingMul blockTimeV2TargetSeconds cap
    if (saturatingMul numerator cap).toNat < (saturatingMul denominator (cap - 1)).toNat then
      scaleTargetFraction currentTarget (cap - 1) cap
    else if (saturatingMul numerator cap).toNat >
        (saturatingMul denominator blockTimeV2NormalCapNumerator).toNat then
      scaleTargetFraction currentTarget blockTimeV2NormalCapNumerator cap
    else scaleTarget currentTarget numerator denominator

end Blq
