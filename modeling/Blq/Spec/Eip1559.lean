import Blq.Spec.RawTransaction

/-!
# The encoder of type-2 transactions (`blq-primitives`)

The primitives crate has its own RLP encoder for what an EIP-1559 signature covers and for the
signed transaction, apart from the node's.
-/

namespace Blq

open Word Result Rlp

/-- The loop of `eip1559_rlp_header`: the bytes of a length from the lowest one on. A length is a
machine word, so there are at most eight. -/
def eip1559LenBytes : ℕ → ℕ → Bytes
  | 0, _ => []
  | fuel + 1, value =>
    if value > 0 then UInt8.ofNat (value &&& 0xff) :: eip1559LenBytes fuel (value >>> 8) else []

def eip1559RlpHeader (offset : UInt8) (len : ℕ) : Bytes :=
  if len < 56 then [offset + UInt8.ofNat len]
  else
    let lenBytes := (eip1559LenBytes 8 len).reverse
    (offset + 55 + UInt8.ofNat lenBytes.length) :: lenBytes

def eip1559RlpListPayload (payload : Bytes) : Bytes :=
  eip1559RlpHeader 0xc0 payload.length ++ payload

def eip1559RlpList (fields : List Bytes) : Bytes := eip1559RlpListPayload fields.flatten

def eip1559TypedRlp (payload : Bytes) : Bytes := 0x02 :: eip1559RlpListPayload payload

def eip1559RlpBytes (bytes : Bytes) : Bytes :=
  if bytes.length = 1 ∧ bytes.headD 0 < 0x80 then [bytes.headD 0]
  else eip1559RlpHeader 0x80 bytes.length ++ bytes

/-- `eip1559_rlp_u64`, `eip1559_rlp_u128` and `eip1559_rlp_word`: the bytes from the first one
that is not zero, or none. -/
def eip1559RlpUint {w : ℕ} (value : BitVec w) : Bytes :=
  if value = 0 then eip1559RlpBytes []
  else
    let bytes := beBytes value
    eip1559RlpBytes (bytes.drop ((bytes.findIdx? (· ≠ 0)).getD (w / 8 - 1)))

def eip1559RlpU64 (value : U64) : Bytes := eip1559RlpUint value

def eip1559RlpU128 (value : U128) : Bytes := eip1559RlpUint value

def eip1559RlpWord (value : Hash256) : Bytes := eip1559RlpUint value

def eip1559EncodeAccessList (accessList : List TransactionAccessListItem) : Bytes :=
  eip1559RlpList (accessList.map fun item =>
    eip1559RlpList [eip1559RlpBytes (beBytes item.address),
      eip1559RlpList (item.storageKeys.map fun key => eip1559RlpBytes (beBytes key))])

def eip1559ExpectedType (transactionType : UInt8) : NodeError :=
  .bail ("expected EIP-1559 transaction type 2, got " ++ toString transactionType.toNat)

/-- The fields both payloads of a type-2 transaction start with. -/
def eip1559Fields (t : Transaction) : List Bytes :=
  [eip1559RlpU64 t.chainId, eip1559RlpU64 t.nonce, eip1559RlpU128 t.maxPriorityFeePerGas,
    eip1559RlpU128 t.maxFeePerGas, eip1559RlpU64 t.gasLimit, eip1559RlpBytes t.recipient,
    eip1559RlpU128 t.value, eip1559RlpBytes t.payload, eip1559EncodeAccessList t.accessList]

def eip1559SignedBytes (t : Transaction) : Except NodeError Bytes :=
  if t.transactionType ≠ 2 then throw (eip1559ExpectedType t.transactionType)
  else
    match t.signature with
    | none => throw (.bail "EIP-1559 transaction requires a signature")
    | some signature => pure (eip1559TypedRlp (eip1559Fields t ++
        [eip1559RlpU64 (BitVec.ofNat 64 signature.yParity.toNat), eip1559RlpWord signature.r,
          eip1559RlpWord signature.s]).flatten)

end Blq
