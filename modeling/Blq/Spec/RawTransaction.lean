import Blq.Monad.Basic
import Blq.Rlp.Basic
import Blq.Spec.Consensus

/-!
# Raw transactions (`blq-node`, `blq-primitives`)

Reading the RLP of a signed transaction of type 0, 1 or 2, writing it again and checking its
signature. The reader takes items off the front of a byte string, which is the state of
`RlpReader`. A type-2 transaction is written by the encoder of `blq-primitives`, which has a
module of its own (`Eip1559`) and writes the same bytes.
-/

namespace Blq

open Word Result Rlp

/-! ## Encoding -/

def rlpEncodeBytes (bs : Bytes) : Bytes := encodeString bs

/-- `rlp_encode_u64`, `rlp_encode_u128` and `rlp_encode_word`: zero is the empty string, any
other value its bytes from the first one that is not zero. -/
def rlpEncodeUint {w : ℕ} (value : BitVec w) : Bytes :=
  if value = 0 then rlpEncodeBytes [] else rlpEncodeBytes (stripZeros (beBytes value))

def rlpEncodeU64 (value : U64) : Bytes := rlpEncodeUint value

def rlpEncodeU128 (value : U128) : Bytes := rlpEncodeUint value

def rlpEncodeWord (value : Hash256) : Bytes := rlpEncodeUint value

def encodeRlpList (fields : List Bytes) : Bytes := encodeList fields.flatten

def encodeTypedRlp (transactionType : UInt8) (payload : Bytes) : Bytes :=
  transactionType :: encodeList payload

def encodeAccessList (accessList : List TransactionAccessListItem) : Bytes :=
  encodeRlpList (accessList.map fun item =>
    encodeRlpList [rlpEncodeBytes (beBytes item.address),
      encodeRlpList (item.storageKeys.map fun key => rlpEncodeBytes (beBytes key))])

/-- The recipient's bytes, none for a contract creation. -/
def Transaction.recipient (t : Transaction) : Bytes := (t.to_.map beBytes).getD []

/-- The fields of a transaction that its signature covers, for each type, without the
trailing fields of a legacy one. -/
def Transaction.signedFields (t : Transaction) : List Bytes :=
  match t.transactionType with
  | 0 => [rlpEncodeU64 t.nonce, rlpEncodeU128 t.maxFeePerGas, rlpEncodeU64 t.gasLimit,
      rlpEncodeBytes t.recipient, rlpEncodeU128 t.value, rlpEncodeBytes t.payload]
  | 1 => [rlpEncodeU64 t.chainId, rlpEncodeU64 t.nonce, rlpEncodeU128 t.maxFeePerGas,
      rlpEncodeU64 t.gasLimit, rlpEncodeBytes t.recipient, rlpEncodeU128 t.value,
      rlpEncodeBytes t.payload, encodeAccessList t.accessList]
  | _ => [rlpEncodeU64 t.chainId, rlpEncodeU64 t.nonce, rlpEncodeU128 t.maxPriorityFeePerGas,
      rlpEncodeU128 t.maxFeePerGas, rlpEncodeU64 t.gasLimit, rlpEncodeBytes t.recipient,
      rlpEncodeU128 t.value, rlpEncodeBytes t.payload, encodeAccessList t.accessList]

def unsupportedType (transactionType : UInt8) : NodeError :=
  .bail ("unsupported transaction type " ++ toString transactionType.toNat)

def transactionSigningPayload (t : Transaction) : Except NodeError Bytes :=
  match t.transactionType with
  | 0 => pure (encodeRlpList (t.signedFields ++
      [rlpEncodeU64 t.chainId, rlpEncodeBytes [], rlpEncodeBytes []]))
  | 1 => pure (encodeTypedRlp 0x01 t.signedFields.flatten)
  | 2 => pure (encodeTypedRlp 0x02 t.signedFields.flatten)
  | type => throw (unsupportedType type)

/-- The `v` value of a legacy signature. -/
def legacyV (chainId : U64) (yParity : Bool) : U64 :=
  saturatingAdd (saturatingAdd (saturatingMul chainId 2) 35) (BitVec.ofNat 64 yParity.toNat)

def transactionSignedBytes (t : Transaction) : Except NodeError Bytes :=
  match t.signature with
  | none => throw (.bail "transaction gossip requires a signature")
  | some signature =>
    let parity := rlpEncodeU64 (BitVec.ofNat 64 signature.yParity.toNat)
    let r := rlpEncodeWord signature.r
    let s := rlpEncodeWord signature.s
    match t.transactionType with
    | 0 => pure (encodeRlpList (t.signedFields ++
        [rlpEncodeU64 (legacyV t.chainId signature.yParity), r, s]))
    | 1 => pure (encodeTypedRlp 0x01 (t.signedFields ++ [parity, r, s]).flatten)
    | 2 => pure (encodeTypedRlp 0x02 (t.signedFields ++ [parity, r, s]).flatten)
    | type => throw (unsupportedType type)

/-! ## Reading -/

abbrev RlpReader := EStateM NodeError Bytes

def rlpDecodeLength (input : Bytes) (lenOfLen : ℕ) : Except NodeError (ℕ × Bytes) := do
  if lenOfLen = 0 ∨ lenOfLen > 8 ∨ input.length < lenOfLen then
    throw (.bail "invalid RLP length")
  let len := ofBeBytes (input.take lenOfLen)
  if len ≥ 2 ^ 64 then throw (.bail "RLP length overflow")
  pure (len, input.drop lenOfLen)

/-- Splits the payload of the given length off the input. -/
def rlpSplitPayload (list : Bool) (rest : Bytes) (len : ℕ) (short : String) :
    RlpReader (Bool × Bytes) := do
  if rest.length < len then throw (.bail short)
  set (rest.drop len)
  pure (list, rest.take len)

/-- Whether the next item is a list, and its payload. -/
def rlpTakeItem : RlpReader (Bool × Bytes) := do
  match ← get with
  | [] => throw (.bail "unexpected end of RLP input")
  | first :: rest =>
    if first.toNat ≤ 0x7f then
      set rest
      pure (false, [first])
    else if first.toNat ≤ 0xb7 then
      rlpSplitPayload false rest (first.toNat - 0x80) "short RLP string"
    else if first.toNat ≤ 0xbf then
      let (len, afterLen) ← runExcept (rlpDecodeLength rest (first.toNat - 0xb7))
      rlpSplitPayload false afterLen len "short RLP long string"
    else if first.toNat ≤ 0xf7 then
      rlpSplitPayload true rest (first.toNat - 0xc0) "short RLP list"
    else
      let (len, afterLen) ← runExcept (rlpDecodeLength rest (first.toNat - 0xf7))
      rlpSplitPayload true afterLen len "short RLP long list"

/-- The next item with its header. -/
def rlpTakeRaw : RlpReader Bytes := do
  let start ← get
  let _ ← rlpTakeItem
  let rest ← get
  pure (start.take (start.length - rest.length))

def rlpTakeBytes : RlpReader Bytes := do
  let (list, payload) ← rlpTakeItem
  if list then throw (.bail "expected RLP bytes")
  pure payload

def rlpTakeU128 : RlpReader U128 := do
  let bytes ← rlpTakeBytes
  if bytes.length > 16 then throw (.bail "integer does not fit in u128")
  if bytes.length > 1 ∧ bytes.head? = some 0 then
    throw (.bail "non-canonical RLP integer encoding")
  pure (BitVec.ofNat 128 (ofBeBytes bytes))

def rlpTakeU64 : RlpReader U64 := do
  let value ← rlpTakeU128
  if value.toNat ≥ 2 ^ 64 then throw (.bail "out of range integral type conversion attempted")
  pure (value.setWidth 64)

def rlpTakeWord : RlpReader Hash256 := do
  let bytes ← rlpTakeBytes
  if bytes.length > 32 then throw (.bail "signature scalar is longer than 32 bytes")
  pure (BitVec.ofNat 256 (ofBeBytes bytes))

def rlpTakeOptionalAddress : RlpReader (Option Address) := do
  let bytes ← rlpTakeBytes
  if bytes = [] then return none
  if bytes.length ≠ 20 then throw (.bail "transaction recipient must be empty or 20 bytes")
  pure (some (BitVec.ofNat 160 (ofBeBytes bytes)))

/-- A reader applied to an input: what it returns and the rest of the input. -/
def takeFrom {α : Type} (reader : RlpReader α) (input : Bytes) : Except NodeError (α × Bytes) :=
  match reader.run input with
  | .error e _ => throw e
  | .ok value rest => pure (value, rest)

/-- The payload of a byte string that is one list item. -/
def decodeRlpList (bytes : Bytes) : Except NodeError Bytes := do
  let ((list, payload), rest) ← takeFrom rlpTakeItem bytes
  if rest ≠ [] then throw (.bail "raw transaction has trailing bytes")
  if !list then throw (.bail "raw transaction payload must be an RLP list")
  pure payload

/-- A byte string that is one field. -/
def decodeField {α : Type} (reader : RlpReader α) (trailing : String) (field : Bytes) :
    Except NodeError α := do
  let (value, rest) ← takeFrom reader field
  if rest ≠ [] then throw (.bail trailing)
  pure value

def decodeBytesField := decodeField rlpTakeBytes "RLP field has trailing bytes"

def decodeU64Field := decodeField rlpTakeU64 "RLP integer field has trailing bytes"

def decodeU128Field := decodeField rlpTakeU128 "RLP integer field has trailing bytes"

/-! ## Access lists -/

def accessListLimit : NodeError := .bail "transaction access list exceeds the maximum size"

/-- The storage keys of one entry. The fuel is the length of the input: every key takes at
least one byte off it. `count` and `total` are the keys read so far for this entry and for
the whole list. -/
def rlpTakeStorageKeys : ℕ → Bytes → ℕ → ℕ → Except NodeError (List Hash256)
  | 0, keys, _, _ => if keys = [] then pure [] else throw accessListLimit
  | fuel + 1, keys, count, total =>
    if keys = [] then pure []
    else do
      if count ≥ maxAccessListStorageKeysPerEntry ∨ total ≥ maxAccessListStorageKeys then
        throw accessListLimit
      let (key, rest) ← takeFrom rlpTakeBytes keys
      if key.length ≠ 32 then throw (.bail "access-list storage key must be 32 bytes")
      let others ← rlpTakeStorageKeys fuel rest (count + 1) (total + 1)
      pure (BitVec.ofNat 256 (ofBeBytes key) :: others)

/-- One entry of an access list. -/
def decodeAccessListEntry (entry : Bytes) (total : ℕ) :
    Except NodeError TransactionAccessListItem := do
  let payload ← decodeRlpList entry
  let (address, rest) ← takeFrom rlpTakeBytes payload
  if address.length ≠ 20 then throw (.bail "access-list address must be 20 bytes")
  let ((storageList, keys), rest) ← takeFrom rlpTakeItem rest
  if !storageList ∨ rest ≠ [] then throw (.bail "invalid access-list storage keys")
  let storageKeys ← rlpTakeStorageKeys keys.length keys 0 total
  pure ⟨BitVec.ofNat 160 (ofBeBytes address), storageKeys⟩

/-- The entries, with the number of entries and of keys read so far. -/
def decodeAccessListEntries : ℕ → Bytes → ℕ → ℕ → Except NodeError (List TransactionAccessListItem)
  | 0, entries, _, _ => if entries = [] then pure [] else throw accessListLimit
  | fuel + 1, entries, count, total =>
    if entries = [] then pure []
    else do
      if count ≥ maxAccessListEntries then throw accessListLimit
      let (entry, rest) ← takeFrom rlpTakeRaw entries
      let item ← decodeAccessListEntry entry total
      let others ← decodeAccessListEntries fuel rest (count + 1) (total + item.storageKeys.length)
      pure (item :: others)

def rlpDecodeAccessList : RlpReader (List TransactionAccessListItem) := do
  let (list, entries) ← rlpTakeItem
  if !list then throw (.bail "access list must be an RLP list")
  runExcept (decodeAccessListEntries entries.length entries 0 0)

/-! ## Transactions -/

variable (O : Oracle)

/-- The next `count` items with their headers. -/
def rlpTakeRaws : ℕ → RlpReader (List Bytes)
  | 0 => pure []
  | count + 1 => do
    let field ← rlpTakeRaw
    let fields ← rlpTakeRaws count
    pure (field :: fields)

/-- The signed payload of a typed transaction: its first fields as they were received. -/
def encodeTypedSigningPayload (payload : Bytes) (fieldCount : ℕ) (transactionType : UInt8) :
    Except NodeError Bytes := do
  let (fields, rest) ← takeFrom (rlpTakeRaws fieldCount) payload
  if rest = [] then throw (.bail "raw transaction is missing signature fields")
  pure (encodeTypedRlp transactionType fields.flatten)

def validateRawChainId (chainId : U64) : Except NodeError Unit :=
  if chainId ≠ mainnetChainId then
    throw (.bail ("transaction chain ID " ++ toString chainId.toNat ++ " does not match network " ++
      toString mainnetChainId.toNat))
  else pure ()

def rejectHighSSignature (signature : TransactionSignature) : Except NodeError Unit :=
  if O.highS signature.s then throw (.bail "high-s transaction signatures are not accepted")
  else pure ()

def recoverSigner (signature : TransactionSignature) (signingPayload : Bytes) :
    Except NodeError Address :=
  (O.recover signature.r signature.s signature.yParity (O.keccak256 signingPayload)).mapError
    fun err => .bail ("could not recover transaction signer: " ++ err)

/-- The fields a typed transaction has after its fees, in the order of the source. -/
structure TypedRest where
  gasLimit : U64
  to_ : Option Address
  value : U128
  input : Bytes
  accessList : List TransactionAccessListItem
  signature : TransactionSignature

/-- `eip` is the name the parity error carries. -/
def takeTypedRest (eip : String) : RlpReader TypedRest := do
  let gasLimit ← rlpTakeU64
  let to_ ← rlpTakeOptionalAddress
  let value ← rlpTakeU128
  let input ← rlpTakeBytes
  if input.length > maxTransactionPayloadBytes then
    throw (.bail "transaction payload exceeds the maximum size")
  let accessList ← rlpDecodeAccessList
  let yParity ← rlpTakeU64
  if yParity.toNat > 1 then throw (.bail ("invalid " ++ eip ++ " signature parity"))
  let r ← rlpTakeWord
  let s ← rlpTakeWord
  if (← get) ≠ [] then throw (.bail "raw transaction has trailing RLP fields")
  pure ⟨gasLimit, to_, value, input, accessList, ⟨yParity == 1, r, s⟩⟩

/-- What both typed decoders do with the fields they have read. -/
def finishTyped (rawBytes signingPayload : Bytes) (transactionType : UInt8) (chainId nonce : U64)
    (maxPriorityFeePerGas maxFeePerGas : U128) (fields : TypedRest) :
    Except NodeError Transaction := do
  rejectHighSSignature O fields.signature
  let signer ← recoverSigner O fields.signature signingPayload
  pure
    { chainId := chainId
      transactionType := transactionType
      nonce := nonce
      from_ := signer
      to_ := fields.to_
      value := fields.value
      gasLimit := fields.gasLimit
      maxFeePerGas := maxFeePerGas
      maxPriorityFeePerGas := maxPriorityFeePerGas
      payload := fields.input
      accessList := fields.accessList
      signature := some fields.signature
      externalHash := some (O.keccak256 rawBytes) }

def decodeEip1559Transaction (rawBytes : Bytes) : Except NodeError Transaction := do
  let payload ← decodeRlpList (rawBytes.drop 1)
  let signingPayload ← encodeTypedSigningPayload payload 9 0x02
  let ((chainId, nonce, maxPriorityFeePerGas, maxFeePerGas, fields), _) ← takeFrom (do
    let chainId ← rlpTakeU64
    runExcept (validateRawChainId chainId)
    let nonce ← rlpTakeU64
    let maxPriorityFeePerGas ← rlpTakeU128
    let maxFeePerGas ← rlpTakeU128
    let fields ← takeTypedRest "EIP-1559"
    pure (chainId, nonce, maxPriorityFeePerGas, maxFeePerGas, fields)) payload
  finishTyped O rawBytes signingPayload 2 chainId nonce maxPriorityFeePerGas maxFeePerGas fields

def decodeEip2930Transaction (rawBytes : Bytes) : Except NodeError Transaction := do
  let payload ← decodeRlpList (rawBytes.drop 1)
  let signingPayload ← encodeTypedSigningPayload payload 8 0x01
  let ((chainId, nonce, gasPrice, fields), _) ← takeFrom (do
    let chainId ← rlpTakeU64
    runExcept (validateRawChainId chainId)
    let nonce ← rlpTakeU64
    let gasPrice ← rlpTakeU128
    let fields ← takeTypedRest "EIP-2930"
    pure (chainId, nonce, gasPrice, fields)) payload
  finishTyped O rawBytes signingPayload 1 chainId nonce 0 gasPrice fields

/-- The fields a legacy transaction carries before its signature, one raw item each. -/
structure LegacyFields where
  nonce : U64
  gasPrice : U128
  gasLimit : U64
  to_ : Option Address
  value : U128
  input : Bytes

def decodeLegacyFields (fields : List Bytes) : Except NodeError LegacyFields := do
  let field (i : ℕ) : Bytes := fields.getD i []
  let nonce ← decodeU64Field (field 0)
  let gasPrice ← decodeU128Field (field 1)
  let gasLimit ← decodeU64Field (field 2)
  let to_ ← decodeField rlpTakeOptionalAddress "invalid legacy recipient field" (field 3)
  let value ← decodeU128Field (field 4)
  let input ← decodeBytesField (field 5)
  if input.length > maxTransactionPayloadBytes then
    throw (.bail "transaction payload exceeds the maximum size")
  pure ⟨nonce, gasPrice, gasLimit, to_, value, input⟩

/-- The chain and the parity in the `v` value of a legacy signature. -/
def splitLegacyV (v : U64) : Except NodeError (U64 × Bool) :=
  if v = 27 ∨ v = 28 then
    throw (.bail ("unprotected legacy transactions are disabled; use EIP-155 chain ID " ++
      toString mainnetChainId.toNat))
  else if v.toNat ≥ 35 then pure ((v - 35) / 2, (v - 35) % 2 == 1)
  else throw (.bail "invalid legacy signature v value")

def decodeLegacyTransaction (rawBytes : Bytes) : Except NodeError Transaction := do
  let payload ← decodeRlpList rawBytes
  let ((signingFields, legacy, v, r, s), _) ← takeFrom (do
    let signingFields ← rlpTakeRaws 6
    let legacy ← runExcept (decodeLegacyFields signingFields)
    let v ← rlpTakeU64
    let r ← rlpTakeWord
    let s ← rlpTakeWord
    if (← get) ≠ [] then throw (.bail "raw transaction has trailing RLP fields")
    pure (signingFields, legacy, v, r, s)) payload
  let (chainId, yParity) ← splitLegacyV v
  let signingPayload := encodeRlpList (signingFields ++
    [rlpEncodeU64 chainId, rlpEncodeBytes [], rlpEncodeBytes []])
  validateRawChainId chainId
  let signature : TransactionSignature := ⟨yParity, r, s⟩
  rejectHighSSignature O signature
  let signer ← recoverSigner O signature signingPayload
  pure
    { chainId := chainId
      transactionType := 0
      nonce := legacy.nonce
      from_ := signer
      to_ := legacy.to_
      value := legacy.value
      gasLimit := legacy.gasLimit
      maxFeePerGas := legacy.gasPrice
      maxPriorityFeePerGas := 0
      payload := legacy.input
      accessList := []
      signature := some signature
      externalHash := some (O.keccak256 rawBytes) }

def hexValue (c : Char) : Option ℕ :=
  if '0' ≤ c ∧ c ≤ '9' then some (c.toNat - '0'.toNat)
  else if 'a' ≤ c ∧ c ≤ 'f' then some (c.toNat - 'a'.toNat + 10)
  else if 'A' ≤ c ∧ c ≤ 'F' then some (c.toNat - 'A'.toNat + 10)
  else none

/-- The bytes of the pairs of digits. -/
def hexPairs : List Char → Except NodeError Bytes
  | high :: low :: rest =>
    match hexValue high, hexValue low with
    | some high, some low => do
      let bytes ← hexPairs rest
      pure (UInt8.ofNat (high * 16 + low) :: bytes)
    | _, _ => throw (.bail "Invalid character")
  | _ => pure []

/-- `hex::decode`. -/
def hexDecode (digits : List Char) : Except NodeError Bytes :=
  if digits.length % 2 ≠ 0 then throw (.bail "Odd number of digits") else hexPairs digits

def decodeHex (value : String) : Except NodeError Bytes :=
  match value.toList with
  | '0' :: 'x' :: trimmed => hexDecode trimmed
  | characters => hexDecode characters

def decodeRawBytes (rawBytes : Bytes) : Except NodeError Transaction :=
  match rawBytes with
  | [] => throw (.bail "unsupported raw transaction type")
  | first :: _ =>
    if first = 0x01 then decodeEip2930Transaction O rawBytes
    else if first = 0x02 then decodeEip1559Transaction O rawBytes
    else if first.toNat ≥ 0xc0 then decodeLegacyTransaction O rawBytes
    else throw (.bail "unsupported raw transaction type")

def decodeRawTransaction (raw : String) : Except NodeError Transaction := do
  let rawBytes ← decodeHex raw
  decodeRawBytes O rawBytes

/-! ## Signatures -/

def verifyTransactionSignature (t : Transaction) : Except NodeError Unit :=
  match t.signature with
  | none => throw (.bail "transaction gossip requires a signature")
  | some signature => do
    rejectHighSSignature O signature
    let payload ← transactionSigningPayload t
    let recovered ← recoverSigner O signature payload
    if recovered ≠ t.from_ then throw (.bail "transaction signature does not match sender")
    match t.externalHash with
    | none => pure ()
    | some externalHash => do
      let wire ← transactionSignedBytes t
      if externalHash ≠ O.keccak256 wire then
        throw (.bail "transaction external hash does not match signed payload")

/-- A transaction without signature and external hash passes where signatures are not
required. -/
def validateTransactionAuth (requireSignedTransactions : Bool) (t : Transaction) :
    Except NodeError Unit :=
  if requireSignedTransactions || t.signature.isSome || t.externalHash.isSome then
    verifyTransactionSignature O t
  else pure ()

def validateBlockTransactionAuth (requireSignedTransactions : Bool) (block : Block) :
    Except NodeError Unit :=
  block.transactions.forM (validateTransactionAuth O requireSignedTransactions)

end Blq
