import Blq.Json.Value
import Blq.Spec.Locator
import Blq.Spec.Rows

/-!
# Requests over JSON-RPC (`blq-node`)

What the handlers share: reading a parameter, the hexadecimal quantities and hashes, the tags of
blocks, and the lookup of a body that is no longer here and is fetched from a peer. A handler
answers with a value or refuses; the envelope with the request's id around either is left out.
-/

namespace Blq

open Word Result

/-! ## JSON values -/

namespace JsonValue

/-- `Value::get` and `Map::get`. -/
def member? (key : String) : JsonValue → Option JsonValue
  | obj members => members.lookup key
  | _ => Option.none

/-- `Value::as_array` -/
def asArray? : JsonValue → Option (List JsonValue)
  | arr items => some items
  | _ => Option.none

def isNull : JsonValue → Bool
  | null => true
  | _ => false

/-- The parameter at a position. -/
def param? (parsed : JsonValue) (index : ℕ) : Option JsonValue := do
  let params ← (parsed.member? "params") >>= asArray?
  params[index]?

end JsonValue

/-! ## Hexadecimal -/

/-- `0x{:x}` -/
def hexQuantity (n : ℕ) : String := "0x" ++ String.ofList (Nat.toDigits 16 n)

/-- One digit of `from_str_radix`; the digit is looked at before the overflow. -/
def radixStep (width : ℕ) (value : ℕ) (c : Char) : Except String ℕ :=
  match hexValue c with
  | none => throw "invalid digit found in string"
  | some digit =>
    if value * 16 + digit < 2 ^ width then pure (value * 16 + digit)
    else throw "number too large to fit in target type"

/-- `from_str_radix(_, 16)` of an unsigned type, which takes a plus sign. -/
def fromStrRadix (width : ℕ) (digits : List Char) : Except String (BitVec width) := do
  let digits ← match digits with
    | [] => throw "cannot parse integer from empty string"
    | ['+'] => throw "invalid digit found in string"
    | '+' :: rest => pure rest
    | digits => pure digits
  let value ← digits.foldlM (radixStep width) 0
  pure (BitVec.ofNat width value)

/-- `parse_hex_u64` and `parse_hex_u128`. -/
def parseHex (width : ℕ) (value : String) : Except String (BitVec width) :=
  match value.toList with
  | '0' :: 'x' :: trimmed => fromStrRadix width trimmed
  | _ => throw "hex quantity must start with 0x"

def Address.fromHex (value : String) : Option Address :=
  match decodeHex value with
  | .error _ => none
  | .ok bytes => if bytes.length ≠ 20 then none else some (BitVec.ofNat 160 (ofBeBytes bytes))

/-- The error of `Hash256::from_hex` and `Address::from_hex` as `{:?}` prints it. -/
def hexHashError (value : String) : String :=
  match decodeHex value with
  | .error _ => "InvalidHex"
  | .ok bytes => "InvalidLength(" ++ toString bytes.length ++ ")"

/-! ## Refusals -/

structure RpcError where
  code : ℤ
  message : String
deriving DecidableEq

abbrev Rpc := Except RpcError

def RpcError.invalidParams (message : String) : RpcError := ⟨-32602, message⟩

def RpcError.server (message : String) : RpcError := ⟨-32000, message⟩

/-- `rpc_error(id, -32000, &err.to_string())` -/
def orServerError {α : Type} (x : Except NodeError α) : Rpc α :=
  x.mapError fun e => .server e.message

/-- A text that must be well formed if it is there. -/
def orInvalid {α : Type} (what : String) (x : Except String α) : Rpc α :=
  x.mapError fun e => .invalidParams (what ++ e)

/-! ## Blocks -/

/-- The lookups of `ChainStorage`. -/
structure ChainStorage where
  bestHeader : Except NodeError BlockHeader
  headerByHash : Hash256 → Except NodeError BlockHeader
  headerByNumber : U64 → Except NodeError BlockHeader
  blockByNumber : U64 → Except NodeError Block

/-- The bodies that the peers which are asked answer with, for a height and a hash. -/
structure BodyPeers where
  bodies : U64 → Hash256 → List Block

section

variable (O : Oracle) (peers : BodyPeers) (storage : ChainStorage)

/-- A body of the canonical chain, from the database or else from a peer, which has to answer with
the body of the stored header. -/
def loadRpcBlock (number : U64) : Except NodeError (Option Block) :=
  match storage.blockByNumber number with
  | .ok block => pure (some block)
  | .error (.storage .notFound) =>
    match storage.headerByNumber number with
    | .ok header => pure ((peers.bodies number (header.hash O)).find? fun block =>
        block.header.number = number ∧ block.header.hash O = header.hash O)
    | .error (.storage .notFound) => pure none
    | .error e => throw e
  | .error e => throw e

end

/-- The database behind the typed maps. -/
def SledStorage.reader (O : Oracle) (s : SledStorage) : ChainStorage where
  bestHeader := liftStorage s.bestHeader
  headerByHash hash := liftStorage (s.headerByHash O hash)
  headerByNumber number := liftStorage (s.headerByNumber number)
  blockByNumber number := liftStorage (s.blockByNumber number)

namespace Rows

def candidateBlockKey (hash : Hash256) : RowKey := "candidate:block:".toList ++ hash.toHex.toList

def candidateBlockByHash (rows : Rows) (hash : Hash256) : Except NodeError Block :=
  match rows[candidateBlockKey hash]? with
  | none => throw (.storage .notFound)
  | some (.block block) => pure block
  | some _ => invalidValue

/-- The scan of `header_by_hash` stops at the first header with that hash, or at a value that is
none. -/
def findHeader (O : Oracle) (hash : Hash256) :
    List (RowKey × RowValue) → Except NodeError (Option BlockHeader)
  | [] => pure none
  | (_, .header header) :: rest =>
    if header.hash O = hash then pure (some header) else findHeader O hash rest
  | _ :: _ => invalidValue

def headerByHash (O : Oracle) (rows : Rows) (hash : Hash256) : Except NodeError BlockHeader := do
  match ← findHeader O hash (scanPrefix rows "header:number:".toList) with
  | some header => pure header
  | none => do
    let block ← candidateBlockByHash rows hash
    pure block.header

/-- The database as its rows. -/
def reader (O : Oracle) (rows : Rows) : ChainStorage where
  bestHeader := bestHeader rows
  headerByHash := headerByHash O rows
  headerByNumber := headerByNumber rows
  blockByNumber := blockByNumber rows

end Rows

end Blq
