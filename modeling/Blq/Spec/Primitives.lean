import Blq.Word.Bytes

/-!
# The chain's data types (`blq-primitives`)

Machine integers are bit vectors, `Hash256` and `Address` are the numbers their bytes
denote (so the order of the byte arrays is the order of the numbers), byte vectors are
lists of bytes. The primitives the node takes from elsewhere (digests, signature
recovery, the proof-of-work function, the length of a JSON text) are the fields of an
`Oracle`, about which nothing is assumed.
-/

namespace Blq

open Word

abbrev U64 := BitVec 64
abbrev U128 := BitVec 128
abbrev U256 := BitVec 256
abbrev Hash256 := BitVec 256
abbrev Address := BitVec 160

instance : Std.TransOrd U64 := inferInstance
instance : Std.TransOrd Address := inferInstance
instance : Std.TransOrd Hash256 := inferInstance
instance : Std.LawfulEqOrd Hash256 := inferInstance
instance : LawfulBEq Hash256 := inferInstance

/-- An amount of the native coin, in its smallest unit. -/
abbrev Bix := U128

abbrev BlockNumber := U64

def bixPerBlq : ℕ := 1000000000000000000
def minAcceptableBlockTimeSeconds : ℕ := 15
def maxAcceptableBlockTimeSeconds : ℕ := 45
def maxDifficultyAdjustmentPercent : U64 := 25
def blockTimeV2MedianWindow : ℕ := 16
def blockTimeV2TargetSeconds : U64 := 15
def blockTimeV2FastMedianSeconds : ℕ := 3
def blockTimeV2SlowIntervalSeconds : ℕ := 60
def blockTimeV2NormalCapNumerator : U64 := 17
def blockTimeV2NormalCapDenominator : U64 := 16
def blockTimeV2SlowCapNumerator : U64 := 9
def blockTimeV2SlowCapDenominator : U64 := 8
def blqIssuancePerIntervalBix : Bix := BitVec.ofNat 128 bixPerBlq
def maxRewardIntervalSeconds : U64 := 120
def minBurnPercent : ℕ := 5
def maxBurnPercent : ℕ := 40
def maxUtilizationBasisPoints : U64 := 10000
def mainnetChainId : U64 := 707070
def genesisGasLimit : U64 := 30000000
def genesisTimestampSeconds : U64 := 0
def initialBaseFeePerGasBix : Bix := 1000000000
def eip1559ElasticityMultiplier : U64 := 2
def eip1559BaseFeeMaxChangeDenominator : U128 := 8
def maxTransactionPayloadBytes : ℕ := 128 * 1024
def maxBlockBytes : ℕ := 2 * 1024 * 1024
def maxAccessListEntries : ℕ := 256
def maxAccessListStorageKeysPerEntry : ℕ := 1024
def maxAccessListStorageKeys : ℕ := 4096

/-- Thirty-two bytes `0x0f`. -/
def genesisDifficultyTarget : Hash256 :=
  0x0f0f0f0f0f0f0f0f0f0f0f0f0f0f0f0f0f0f0f0f0f0f0f0f0f0f0f0f0f0f0f0f

/-- The low-order 20 bytes of a word. -/
def Address.fromWord (value : Hash256) : Address := value.setWidth 160

/-- `hex::encode`. -/
def hexEncode (bs : Bytes) : String :=
  String.ofList (bs.flatMap fun b => [Nat.digitChar (b.toNat / 16), Nat.digitChar (b.toNat % 16)])

def Hash256.toHex (h : Hash256) : String := hexEncode (beBytes h)

def Address.toHex (a : Address) : String := "0x" ++ hexEncode (beBytes a)

structure TransactionAccessListItem where
  address : Address
  storageKeys : List Hash256
deriving DecidableEq

structure TransactionSignature where
  yParity : Bool
  r : Hash256
  s : Hash256
deriving DecidableEq

structure Transaction where
  chainId : U64
  transactionType : UInt8
  nonce : U64
  from_ : Address
  to_ : Option Address
  value : Bix
  gasLimit : U64
  maxFeePerGas : Bix
  maxPriorityFeePerGas : Bix
  payload : Bytes
  accessList : List TransactionAccessListItem
  signature : Option TransactionSignature
  externalHash : Option Hash256
deriving DecidableEq

structure LogEntry where
  address : Address
  topics : List Hash256
  data : Bytes
deriving DecidableEq

structure Receipt where
  transactionHash : Hash256
  success : Bool
  gasUsed : U64
  logsRoot : Hash256
  logs : List LogEntry
deriving DecidableEq

structure BlockHeader where
  parentHash : Hash256
  number : BlockNumber
  stateRoot : Hash256
  transactionsRoot : Hash256
  receiptsRoot : Hash256
  beneficiary : Hash256
  difficultyTarget : Hash256
  baseFeePerGas : Bix
  gasLimit : U64
  gasUsed : U64
  timestampSeconds : U64
  powAlgorithm : String
  powEpoch : U64
  extraNonce : U64
  mixHash : Hash256
  nonce : U64
deriving DecidableEq

structure Block where
  header : BlockHeader
  transactions : List Transaction
  receipts : List Receipt
deriving DecidableEq

/-- What `blq_rx_hash` returns. -/
structure PowResult where
  mixHash : Hash256
  finalHash : Hash256
deriving DecidableEq

/-- The third-party primitives, as arbitrary functions of the data the node hands them. -/
structure Oracle where
  sha256 : Bytes → Hash256
  keccak256 : Bytes → Hash256
  /-- Signer recovery from `r`, `s`, the parity and the signed digest, or the error text. -/
  recover : Hash256 → Hash256 → Bool → Hash256 → Except String Address
  /-- Whether normalising a signature with this `s` changes it. -/
  highS : Hash256 → Bool
  blake3 : Bytes → Hash256
  /-- The memory-hard hash of a preimage under an epoch seed. -/
  rxHash : Hash256 → Bytes → PowResult
  /-- The length of a block's JSON text. -/
  jsonLen : Block → ℕ
  /-- Whether the node is built with native RandomX. -/
  nativeRandomx : Bool

/-- An oracle for concrete runs: every digest is zero. -/
def zeroOracle : Oracle where
  sha256 _ := 0
  keccak256 _ := 0
  recover _ _ _ _ := .ok 0
  highS _ := false
  blake3 _ := 0
  rxHash _ _ := ⟨0, 0⟩
  jsonLen _ := 0
  nativeRandomx := false

variable (O : Oracle)

def defaultPowAlgorithm : String := if O.nativeRandomx then "BLQ-RX/2" else "BLQ-RX/1"

/-- A length-delimited byte string. -/
def putBytes (bs : Bytes) : Bytes := toBeBytes 8 bs.length ++ bs

def TransactionAccessListItem.canonicalBytes (item : TransactionAccessListItem) : Bytes :=
  beBytes item.address ++ toBeBytes 8 item.storageKeys.length ++ item.storageKeys.flatMap beBytes

def Transaction.canonicalBytes (t : Transaction) : Bytes :=
  beBytes t.chainId ++ beBytes t.nonce ++ beBytes t.from_ ++
    (match t.to_ with
      | some recipient => 1 :: beBytes recipient
      | none => [0]) ++
    beBytes t.value ++ beBytes t.gasLimit ++ beBytes t.maxFeePerGas ++
    beBytes t.maxPriorityFeePerGas ++ putBytes t.payload ++
    -- legacy and type-2 transactions with an empty list carry no access-list section
    (if !t.accessList.isEmpty || t.transactionType == 1 then
      0xa5 :: t.transactionType :: toBeBytes 8 t.accessList.length ++
        t.accessList.flatMap TransactionAccessListItem.canonicalBytes
    else []) ++
    (match t.signature with
      | some sig => 1 :: (if sig.yParity then 1 else 0) :: beBytes sig.r ++ beBytes sig.s
      | none => [0])

def hashBytes (bs : Bytes) : Hash256 := O.sha256 bs

def Transaction.hash (t : Transaction) : Hash256 := hashBytes O t.canonicalBytes

def Transaction.rpcHash (t : Transaction) : Hash256 := t.externalHash.getD (t.hash O)

def LogEntry.canonicalBytes (log : LogEntry) : Bytes :=
  beBytes log.address ++ toBeBytes 8 log.topics.length ++ log.topics.flatMap beBytes ++
    putBytes log.data

def Receipt.canonicalBytes (r : Receipt) : Bytes :=
  beBytes r.transactionHash ++ [if r.success then 1 else 0] ++ beBytes r.gasUsed ++
    beBytes r.logsRoot ++
    (if r.logs.isEmpty then []
    else toBeBytes 8 r.logs.length ++ r.logs.flatMap fun log => putBytes log.canonicalBytes)

/-- One digest over the length-delimited items and their count; zero when there is none. -/
def merkleLikeRoot (items : List Bytes) : Hash256 :=
  if items.isEmpty then 0 else O.sha256 (items.flatMap putBytes ++ toBeBytes 8 items.length)

def logsRoot (logs : List LogEntry) : Hash256 :=
  if logs.isEmpty then 0 else merkleLikeRoot O (logs.map LogEntry.canonicalBytes)

def transactionsRoot (transactions : List Transaction) : Hash256 :=
  merkleLikeRoot O (transactions.map Transaction.canonicalBytes)

def receiptsRoot (receipts : List Receipt) : Hash256 :=
  merkleLikeRoot O (receipts.map Receipt.canonicalBytes)

namespace BlockHeader

variable (h : BlockHeader)

def beneficiaryAddress : Address := Address.fromWord h.beneficiary

/-- The fields both encodings of a header start with, up to the extra nonce. -/
def commonBytes : Bytes :=
  beBytes h.parentHash ++ beBytes h.number ++ beBytes h.stateRoot ++ beBytes h.transactionsRoot ++
    beBytes h.receiptsRoot ++ beBytes h.beneficiary ++ beBytes h.difficultyTarget ++
    beBytes h.baseFeePerGas ++ beBytes h.gasLimit ++ beBytes h.gasUsed ++
    beBytes h.timestampSeconds ++ putBytes h.powAlgorithm.toUTF8.toList ++ beBytes h.powEpoch ++
    beBytes h.extraNonce

def canonicalBytes : Bytes := h.commonBytes ++ beBytes h.mixHash ++ beBytes h.nonce

def powPreimageBytes : Bytes := h.commonBytes ++ beBytes h.nonce

def hash : Hash256 := hashBytes O h.canonicalBytes

end BlockHeader

def Block.canonicalBytes (b : Block) : Bytes :=
  b.header.canonicalBytes ++
    toBeBytes 8 b.transactions.length ++ (b.transactions.flatMap fun t => putBytes t.canonicalBytes) ++
    toBeBytes 8 b.receipts.length ++ b.receipts.flatMap fun r => putBytes r.canonicalBytes

def genesisHeader : BlockHeader where
  parentHash := 0
  number := 0
  stateRoot := 0
  transactionsRoot := 0
  receiptsRoot := 0
  beneficiary := 0
  difficultyTarget := genesisDifficultyTarget
  baseFeePerGas := initialBaseFeePerGasBix
  gasLimit := genesisGasLimit
  gasUsed := 0
  timestampSeconds := genesisTimestampSeconds
  powAlgorithm := defaultPowAlgorithm O
  powEpoch := 0
  extraNonce := 0
  mixHash := 0
  nonce := 0

def genesisBlock : Block where
  header := genesisHeader O
  transactions := []
  receipts := []

end Blq
