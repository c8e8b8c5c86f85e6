import Blq.Json.Text
import Blq.Spec.Pools

/-!
# Blocks as JSON and the peer line reader

`serde_json`'s compact text of a block, the line in which a peer sends it, and the reader of such
lines. A digest is a tuple of bytes and so an array of numbers, an address its hexadecimal text, an
amount its decimal digits in quotes.

* `Block.json`: what the pools store and measure.
* `blockBodyLine`: what `send_p2p_message` writes for a block.
* `readP2pLine`: one line from the chunks a connection delivers.
-/

namespace Blq

open Word

/-! ## JSON -/

def Hash256.json (h : Hash256) : Bytes := Json.bytes (beBytes h)

def Address.json (a : Address) : Bytes := Json.string a.toHex.toList

def Bix.json (amount : Bix) : Bytes := Json.string (Nat.toDigits 10 amount.toNat)

def jsonU64 (n : U64) : Bytes := Json.number n.toNat

def jsonOption {α : Type} (json : α → Bytes) : Option α → Bytes
  | some value => json value
  | none => Json.null

def TransactionAccessListItem.json (item : TransactionAccessListItem) : Bytes :=
  Json.object [("address", Address.json item.address),
    ("storage_keys", Json.array (item.storageKeys.map Hash256.json))]

def TransactionSignature.json (sig : TransactionSignature) : Bytes :=
  Json.object [("y_parity", Json.bool sig.yParity), ("r", Hash256.json sig.r),
    ("s", Hash256.json sig.s)]

def Transaction.json (t : Transaction) : Bytes :=
  Json.object [("chain_id", jsonU64 t.chainId),
    ("transaction_type", Json.number t.transactionType.toNat),
    ("nonce", jsonU64 t.nonce),
    ("from", Address.json t.from_),
    ("to", jsonOption Address.json t.to_),
    ("value", Bix.json t.value),
    ("gas_limit", jsonU64 t.gasLimit),
    ("max_fee_per_gas", Bix.json t.maxFeePerGas),
    ("max_priority_fee_per_gas", Bix.json t.maxPriorityFeePerGas),
    ("payload", Json.bytes t.payload),
    ("access_list", Json.array (t.accessList.map TransactionAccessListItem.json)),
    ("signature", jsonOption TransactionSignature.json t.signature),
    ("external_hash", jsonOption Hash256.json t.externalHash)]

def LogEntry.json (log : LogEntry) : Bytes :=
  Json.object [("address", Address.json log.address),
    ("topics", Json.array (log.topics.map Hash256.json)),
    ("data", Json.bytes log.data)]

def Receipt.json (r : Receipt) : Bytes :=
  Json.object [("transaction_hash", Hash256.json r.transactionHash),
    ("success", Json.bool r.success),
    ("gas_used", jsonU64 r.gasUsed),
    ("logs_root", Hash256.json r.logsRoot),
    ("logs", Json.array (r.logs.map LogEntry.json))]

def BlockHeader.json (h : BlockHeader) : Bytes :=
  Json.object [("parent_hash", Hash256.json h.parentHash),
    ("number", jsonU64 h.number),
    ("state_root", Hash256.json h.stateRoot),
    ("transactions_root", Hash256.json h.transactionsRoot),
    ("receipts_root", Hash256.json h.receiptsRoot),
    ("beneficiary", Hash256.json h.beneficiary),
    ("difficulty_target", Hash256.json h.difficultyTarget),
    ("base_fee_per_gas", Bix.json h.baseFeePerGas),
    ("gas_limit", jsonU64 h.gasLimit),
    ("gas_used", jsonU64 h.gasUsed),
    ("timestamp_seconds", jsonU64 h.timestampSeconds),
    ("pow_algorithm", Json.string h.powAlgorithm.toList),
    ("pow_epoch", jsonU64 h.powEpoch),
    ("extra_nonce", jsonU64 h.extraNonce),
    ("mix_hash", Hash256.json h.mixHash),
    ("nonce", jsonU64 h.nonce)]

def Block.json (b : Block) : Bytes :=
  Json.object [("header", b.header.json),
    ("transactions", Json.array (b.transactions.map Transaction.json)),
    ("receipts", Json.array (b.receipts.map Receipt.json))]

/-- The oracle whose JSON lengths are those of the texts above. -/
def Oracle.withJson (O : Oracle) : Oracle := { O with jsonLen := fun block => block.json.length }

/-! ## Peer messages -/

def maxP2pMessageBytes : ℕ := 2 * 1024 * 1024

/-- `P2pMessage::BlockBody`. -/
def blockBodyMessage (b : Block) : Bytes :=
  Json.object [("type", Json.string "blockBody".toList), ("block", b.json)]

/-- What `send_p2p_message` writes: the message and a line break. -/
def blockBodyLine (b : Block) : Bytes := blockBodyMessage b ++ [10]

/-- How much of the buffer belongs to the line: up to the line break, or all of it. -/
def lineTake (available : Bytes) : ℕ :=
  ((available.findIdx? (· == 10)).map (· + 1)).getD available.length

/-- What stays to be read. -/
def consume (take : ℕ) (available : Bytes) (chunks : List Bytes) : List Bytes :=
  if take < available.length then available.drop take :: chunks else chunks

/-- The loop of `read_p2p_line`. The list holds what `fill_buf` returns, call by call; nothing more,
or an empty buffer, is the end of the stream. Returns whether a line was read, the line, and what
stays in the reader. -/
def readP2pLineLoop (line : Bytes) : List Bytes → Except String (Bool × Bytes × List Bytes)
  | [] => pure (!line.isEmpty, line, [])
  | available :: chunks => do
    if available.isEmpty then return (!line.isEmpty, line, chunks)
    let take := lineTake available
    if line.length + take > maxP2pMessageBytes then throw "peer message exceeds size limit"
    let chunk := available.take take
    let hasNewline := chunk.getLast? == some 10
    if !Json.utf8Valid chunk then throw "peer message is not valid UTF-8"
    if hasNewline then return (true, line ++ chunk, consume take available chunks)
    -- without a line break the whole buffer is consumed
    readP2pLineLoop (line ++ chunk) chunks

def readP2pLine (chunks : List Bytes) : Except String (Bool × Bytes × List Bytes) :=
  readP2pLineLoop [] chunks

end Blq
