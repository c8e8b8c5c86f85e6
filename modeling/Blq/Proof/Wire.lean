import Blq.Proof.RoundTrip
import Blq.Proof.Validation
import Blq.Spec.Wire

/-!
# Relaying and retaining a block

The limits of the consensus rule, of the line reader and of the two pools are the same number, but
the first counts canonical bytes and the others the characters of the JSON text, in which a byte
takes up to four.

* `Block.length_json`: the length of a block's text, from the widths of its fields.
* `readP2pLineLoop_of_ascii`: an ASCII line is read whole from any chunks, or refused for its
  length alone.
* `relayed_iff`: a block is received, kept as an orphan and kept as a candidate exactly if its line
  fits.
* `fullPayloadBlock_not_relayed`: five transactions with full payloads are valid and too long.
-/

namespace Blq

open Word

/-! ## Lengths -/

def Hash256.jsonLength (h : Hash256) : ℕ := Json.bytesLength (beBytes h)

def Bix.jsonLength (amount : Bix) : ℕ := Json.width amount.toNat + 2

/-- `0x` and forty digits in quotes. -/
def addressJsonLength : ℕ := 44

def nullJsonLength : ℕ := 4

def boolJsonLength (b : Bool) : ℕ := if b then 4 else 5

def TransactionAccessListItem.jsonLength (item : TransactionAccessListItem) : ℕ :=
  28 + addressJsonLength + Json.listLength (item.storageKeys.map Hash256.jsonLength)

def TransactionSignature.jsonLength (sig : TransactionSignature) : ℕ :=
  23 + boolJsonLength sig.yParity + Hash256.jsonLength sig.r + Hash256.jsonLength sig.s

def Transaction.jsonLength (t : Transaction) : ℕ :=
  181 + Json.width t.chainId.toNat + Json.width t.transactionType.toNat +
    Json.width t.nonce.toNat + addressJsonLength +
    t.to_.elim nullJsonLength (fun _ => addressJsonLength) + Bix.jsonLength t.value +
    Json.width t.gasLimit.toNat + Bix.jsonLength t.maxFeePerGas +
    Bix.jsonLength t.maxPriorityFeePerGas + Json.bytesLength t.payload +
    Json.listLength (t.accessList.map TransactionAccessListItem.jsonLength) +
    t.signature.elim nullJsonLength TransactionSignature.jsonLength +
    t.externalHash.elim nullJsonLength Hash256.jsonLength

def LogEntry.jsonLength (log : LogEntry) : ℕ :=
  30 + addressJsonLength + Json.listLength (log.topics.map Hash256.jsonLength) +
    Json.bytesLength log.data

def Receipt.jsonLength (r : Receipt) : ℕ :=
  65 + Hash256.jsonLength r.transactionHash + boolJsonLength r.success +
    Json.width r.gasUsed.toNat + Hash256.jsonLength r.logsRoot +
    Json.listLength (r.logs.map LogEntry.jsonLength)

def BlockHeader.jsonLength (h : BlockHeader) : ℕ :=
  246 + Hash256.jsonLength h.parentHash + Json.width h.number.toNat +
    Hash256.jsonLength h.stateRoot + Hash256.jsonLength h.transactionsRoot +
    Hash256.jsonLength h.receiptsRoot + Hash256.jsonLength h.beneficiary +
    Hash256.jsonLength h.difficultyTarget + Bix.jsonLength h.baseFeePerGas +
    Json.width h.gasLimit.toNat + Json.width h.gasUsed.toNat +
    Json.width h.timestampSeconds.toNat + (h.powAlgorithm.length + 2) +
    Json.width h.powEpoch.toNat + Json.width h.extraNonce.toNat + Hash256.jsonLength h.mixHash +
    Json.width h.nonce.toNat

def Block.jsonLength (b : Block) : ℕ :=
  39 + b.header.jsonLength + Json.listLength (b.transactions.map Transaction.jsonLength) +
    Json.listLength (b.receipts.map Receipt.jsonLength)

@[simp] theorem Hash256.length_json (h : Hash256) : (Hash256.json h).length = Hash256.jsonLength h :=
  Json.length_bytes _

@[simp] theorem Bix.length_json (amount : Bix) : (Bix.json amount).length = Bix.jsonLength amount :=
  Json.length_string fun _ hc => Json.plainChar_of_mem_toDigits hc

theorem plainChar_digitChar {n : ℕ} (h : n < 16) : Json.PlainChar (Nat.digitChar n) := by
  interval_cases n <;> decide

variable {bs : Bytes} {α : Type} {b : Block}

theorem plainChar_of_mem_hexEncode {c : Char} (h : c ∈ (hexEncode bs).toList) :
    Json.PlainChar c := by
  induction bs with
  | nil => exact absurd h List.not_mem_nil
  | cons b bs ih =>
    have hb := b.toNat_lt
    rw [toList_hexEncode_cons, List.mem_cons, List.mem_cons] at h
    rcases h with rfl | rfl | h
    · exact plainChar_digitChar (by omega)
    · exact plainChar_digitChar (by omega)
    · exact ih h

theorem Address.toList_toHex (a : Address) :
    (Address.toHex a).toList = '0' :: 'x' :: (hexEncode (beBytes a)).toList := by
  simp [Address.toHex]

theorem Address.plainChar_toHex (a : Address) : ∀ c ∈ (Address.toHex a).toList, Json.PlainChar c := by
  intro c hc
  rw [Address.toList_toHex, List.mem_cons, List.mem_cons] at hc
  rcases hc with rfl | rfl | hc
  · decide
  · decide
  · exact plainChar_of_mem_hexEncode hc

@[simp] theorem Address.length_json (a : Address) : (Address.json a).length = addressJsonLength := by
  unfold Address.json
  rw [Json.length_string (Address.plainChar_toHex a), Address.toList_toHex, List.length_cons,
    List.length_cons, length_hexEncode, beBytes, length_toBeBytes]
  rfl

@[simp] theorem length_bool (b : Bool) : (Json.bool b).length = boolJsonLength b := by
  cases b <;> rfl

theorem length_jsonOption {json : α → Bytes} {length : α → ℕ} (h : ∀ a, (json a).length = length a)
    (value : Option α) : (jsonOption json value).length = value.elim nullJsonLength length := by
  cases value with
  | none => rfl
  | some a => exact h a

theorem length_jsonArray {json : α → Bytes} {length : α → ℕ} (h : ∀ a, (json a).length = length a)
    (items : List α) :
    (Json.array (items.map json)).length = Json.listLength (items.map length) := by
  rw [Json.length_array, List.map_map]
  have hcomp : List.length ∘ json = length := funext h
  rw [hcomp]

@[simp] theorem length_jsonU64 (n : U64) : (jsonU64 n).length = Json.width n.toNat :=
  Json.length_number _

theorem TransactionAccessListItem.length_json (item : TransactionAccessListItem) :
    item.json.length = item.jsonLength := by
  unfold TransactionAccessListItem.json TransactionAccessListItem.jsonLength
  rw [Json.length_object 27 (List.cons_ne_nil _ _) (by simp (disch := decide) [Json.length_string])]
  simp [length_jsonArray Hash256.length_json]
  omega

theorem TransactionSignature.length_json (sig : TransactionSignature) :
    sig.json.length = sig.jsonLength := by
  unfold TransactionSignature.json TransactionSignature.jsonLength
  rw [Json.length_object 22 (List.cons_ne_nil _ _) (by simp (disch := decide) [Json.length_string])]
  simp
  omega

theorem Transaction.length_json (t : Transaction) : t.json.length = t.jsonLength := by
  unfold Transaction.json Transaction.jsonLength
  rw [Json.length_object 180 (List.cons_ne_nil _ _) (by simp (disch := decide) [Json.length_string])]
  simp [length_jsonOption Address.length_json,
    length_jsonArray TransactionAccessListItem.length_json,
    length_jsonOption TransactionSignature.length_json, length_jsonOption Hash256.length_json]
  omega

theorem LogEntry.length_json (log : LogEntry) : log.json.length = log.jsonLength := by
  unfold LogEntry.json LogEntry.jsonLength
  rw [Json.length_object 29 (List.cons_ne_nil _ _) (by simp (disch := decide) [Json.length_string])]
  simp [length_jsonArray Hash256.length_json]
  omega

theorem Receipt.length_json (r : Receipt) : r.json.length = r.jsonLength := by
  unfold Receipt.json Receipt.jsonLength
  rw [Json.length_object 64 (List.cons_ne_nil _ _) (by simp (disch := decide) [Json.length_string])]
  simp [length_jsonArray LogEntry.length_json]
  omega

theorem BlockHeader.length_json {h : BlockHeader}
    (hplain : ∀ c ∈ h.powAlgorithm.toList, Json.PlainChar c) : h.json.length = h.jsonLength := by
  unfold BlockHeader.json BlockHeader.jsonLength
  rw [Json.length_object 245 (List.cons_ne_nil _ _) (by simp (disch := decide) [Json.length_string])]
  simp [Json.length_string hplain, String.length_toList]
  omega

theorem Block.length_json (hplain : ∀ c ∈ b.header.powAlgorithm.toList, Json.PlainChar c) :
    b.json.length = b.jsonLength := by
  unfold Block.json Block.jsonLength
  rw [Json.length_object 38 (List.cons_ne_nil _ _) (by simp (disch := decide) [Json.length_string])]
  simp [BlockHeader.length_json hplain, length_jsonArray Transaction.length_json,
    length_jsonArray Receipt.length_json]
  omega

/-! ## Printable texts -/

@[simp] theorem plain_jsonArray {json : α → Bytes} (h : ∀ a, Json.Plain (json a)) (items : List α) :
    Json.Plain (Json.array (items.map json)) := by
  refine Json.plain_array fun item hitem => ?_
  obtain ⟨a, -, rfl⟩ := List.mem_map.mp hitem
  exact h a

@[simp] theorem plain_jsonOption {json : α → Bytes} (h : ∀ a, Json.Plain (json a)) (value : Option α) :
    Json.Plain (jsonOption json value) := by
  cases value with
  | none => exact Json.plain_null
  | some a => exact h a

@[simp] theorem Hash256.plain_json (h : Hash256) : Json.Plain (Hash256.json h) := Json.plain_bytes _

@[simp] theorem Bix.plain_json (amount : Bix) : Json.Plain (Bix.json amount) :=
  Json.plain_string fun _ hc => Json.plainChar_of_mem_toDigits hc

@[simp] theorem Address.plain_json (a : Address) : Json.Plain (Address.json a) :=
  Json.plain_string (Address.plainChar_toHex a)

@[simp] theorem plain_jsonU64 (n : U64) : Json.Plain (jsonU64 n) := Json.plain_number _

@[simp] theorem TransactionAccessListItem.plain_json (item : TransactionAccessListItem) :
    Json.Plain item.json :=
  Json.plain_object (by simp [Json.PlainField, Json.PlainChar])

@[simp] theorem TransactionSignature.plain_json (sig : TransactionSignature) : Json.Plain sig.json :=
  Json.plain_object (by simp [Json.PlainField, Json.PlainChar])

@[simp] theorem Transaction.plain_json (t : Transaction) : Json.Plain t.json :=
  Json.plain_object (by simp [Json.PlainField, Json.PlainChar])

@[simp] theorem LogEntry.plain_json (log : LogEntry) : Json.Plain log.json :=
  Json.plain_object (by simp [Json.PlainField, Json.PlainChar])

@[simp] theorem Receipt.plain_json (r : Receipt) : Json.Plain r.json :=
  Json.plain_object (by simp [Json.PlainField, Json.PlainChar])

theorem BlockHeader.plain_json {h : BlockHeader}
    (hplain : ∀ c ∈ h.powAlgorithm.toList, Json.PlainChar c) : Json.Plain h.json :=
  Json.plain_object (by simp [Json.PlainField, Json.PlainChar, Json.plain_string hplain])

theorem Block.plain_json (hplain : ∀ c ∈ b.header.powAlgorithm.toList, Json.PlainChar c) :
    Json.Plain b.json :=
  Json.plain_object (by simp [Json.PlainField, Json.PlainChar, BlockHeader.plain_json hplain])

theorem plain_blockBodyMessage (hplain : ∀ c ∈ b.header.powAlgorithm.toList, Json.PlainChar c) :
    Json.Plain (blockBodyMessage b) :=
  Json.plain_object (by
    simp [Json.PlainField, Json.PlainChar, Block.plain_json hplain]
    decide)

theorem length_blockBodyMessage (b : Block) : (blockBodyMessage b).length = 29 + b.json.length := by
  unfold blockBodyMessage
  rw [Json.length_object 17 (List.cons_ne_nil _ _) (by simp (disch := decide) [Json.length_string])]
  have htype : (Json.string "blockBody".toList).length = 11 := by decide
  simp only [List.map_cons, List.map_nil, List.sum_cons, List.sum_nil, htype]
  omega

/-! ## The line reader -/

/-- ASCII characters without a line break. -/
def InLine (bs : Bytes) : Prop := ∀ b ∈ bs, b.toNat < 0x80 ∧ b ≠ 10

theorem Json.Plain.inLine (h : Json.Plain bs) : InLine bs := by
  intro b hb
  obtain ⟨hlow, hhigh⟩ := h b hb
  refine ⟨by omega, ?_⟩
  rintro rfl
  exact absurd hlow (by decide)

theorem findIdx_lineBreak (h : 10 ∉ bs) : bs.findIdx? (· == 10) = none := by
  rw [List.findIdx?_eq_none_iff]
  intro b hb
  rw [beq_eq_false_iff_ne]
  rintro rfl
  exact h hb

theorem lineTake_of_not_mem (h : 10 ∉ bs) : lineTake bs = bs.length := by
  unfold lineTake
  rw [findIdx_lineBreak h]
  rfl

theorem lineTake_append (h : 10 ∉ bs) (rest : Bytes) :
    lineTake (bs ++ 10 :: rest) = bs.length + 1 := by
  unfold lineTake
  rw [List.findIdx?_append, findIdx_lineBreak h, List.findIdx?_cons]
  simp

section InLine

variable {text : Bytes} (htext : InLine text)

include htext

theorem InLine.lineBreak_not_mem : 10 ∉ text := fun hmem => (htext 10 hmem).2 rfl

theorem InLine.utf8Valid : Json.utf8Valid text = true :=
  Json.utf8Valid_of_ascii fun b hb => (htext b hb).1

end InLine

theorem readP2pLineLoop_inside {line chunk : Bytes} (hchunk : InLine chunk) (hne : chunk ≠ [])
    (chunks : List Bytes) :
    readP2pLineLoop line (chunk :: chunks) =
      if line.length + chunk.length ≤ maxP2pMessageBytes then readP2pLineLoop (line ++ chunk) chunks
      else .error "peer message exceeds size limit" := by
  have hempty : chunk.isEmpty = false := by simpa using hne
  have hlast : (chunk.getLast? == some 10) = false := by
    rw [beq_eq_false_iff_ne]
    exact fun hlast => hchunk.lineBreak_not_mem (List.mem_of_getLast? hlast)
  by_cases hfits : line.length + chunk.length ≤ maxP2pMessageBytes
  · rw [if_pos hfits, readP2pLineLoop]
    simp [hempty, lineTake_of_not_mem hchunk.lineBreak_not_mem, hchunk.utf8Valid, hlast,
      Nat.not_lt.mpr hfits]
  · rw [if_neg hfits, readP2pLineLoop]
    simp [hempty, lineTake_of_not_mem hchunk.lineBreak_not_mem, Nat.not_le.mp hfits]
    rfl

/-- A chunk with the line break ends the line; what follows the break stays. -/
theorem readP2pLineLoop_break {line text : Bytes} (htext : InLine text) (after : Bytes)
    (chunks : List Bytes) :
    readP2pLineLoop line ((text ++ 10 :: after) :: chunks) =
      if line.length + text.length + 1 ≤ maxP2pMessageBytes then
        .ok (true, line ++ text ++ [10], if after = [] then chunks else after :: chunks)
      else .error "peer message exceeds size limit" := by
  have hempty : (text ++ 10 :: after).isEmpty = false := by simp
  have hvalid : Json.utf8Valid (text ++ [10]) = true := by
    refine Json.utf8Valid_of_ascii fun b hb => ?_
    rcases List.mem_append.mp hb with hb | hb
    · exact (htext b hb).1
    · rw [List.mem_singleton.mp hb]
      decide
  have htake : (text ++ 10 :: after).take (text.length + 1) = text ++ [10] := by
    rw [List.take_append]
    simp
  have hconsume : consume (text.length + 1) (text ++ 10 :: after) chunks =
      if after = [] then chunks else after :: chunks := by
    unfold consume
    cases after with
    | nil => simp
    | cons b after => simp [List.drop_append]
  by_cases hfits : line.length + text.length + 1 ≤ maxP2pMessageBytes
  · rw [if_pos hfits, readP2pLineLoop, lineTake_append htext.lineBreak_not_mem]
    simp [htake, hvalid, hconsume, Nat.not_lt.mpr hfits, ← Nat.add_assoc]
  · rw [if_neg hfits, readP2pLineLoop, lineTake_append htext.lineBreak_not_mem]
    simp [Nat.not_le.mp hfits, ← Nat.add_assoc]
    rfl

/-- **An ASCII line is read whole from any chunks**, and refused exactly when it is longer than the
limit. -/
theorem readP2pLineLoop_of_ascii (line : Bytes) {text rest : Bytes} {chunks : List Bytes}
    (htext : InLine text) (hchunks : ∀ chunk ∈ chunks, chunk ≠ [])
    (h : chunks.flatten = text ++ 10 :: rest) :
    if line.length + text.length + 1 ≤ maxP2pMessageBytes then
      ∃ left, readP2pLineLoop line chunks = .ok (true, line ++ text ++ [10], left) ∧
        left.flatten = rest ∧ ∀ chunk ∈ left, chunk ≠ []
    else readP2pLineLoop line chunks = .error "peer message exceeds size limit" := by
  induction chunks generalizing line text with
  | nil => simp at h
  | cons available chunks ih =>
    obtain ⟨havailable, hrestChunks⟩ := List.forall_mem_cons.mp hchunks
    rw [List.flatten_cons] at h
    -- either this chunk lies inside the line, or it holds the line break
    have hsplit : (∃ text', text = available ++ text' ∧ chunks.flatten = text' ++ 10 :: rest) ∨
        ∃ after, available = text ++ 10 :: after ∧ rest = after ++ chunks.flatten := by
      rcases List.append_eq_append_iff.mp h with ⟨text', htext', hrest⟩ | ⟨after, hafter, hrest⟩
      · exact .inl ⟨text', htext', hrest⟩
      · cases after with
        | nil => exact .inl ⟨[], by simpa using hafter.symm, by simpa using hrest.symm⟩
        | cons b after =>
          obtain ⟨rfl, hafterwards⟩ := List.cons_eq_cons.mp hrest
          exact .inr ⟨after, hafter, hafterwards⟩
    rcases hsplit with ⟨text', rfl, hrest⟩ | ⟨after, rfl, rfl⟩
    · have hchunk : InLine available := fun b hb => htext b (List.mem_append_left _ hb)
      have htext' : InLine text' := fun b hb => htext b (List.mem_append_right _ hb)
      have hread := ih (line ++ available) htext' hrestChunks hrest
      have hlength : (line ++ available).length + text'.length + 1 =
          line.length + (available ++ text').length + 1 := by
        simp only [List.length_append]
        omega
      rw [hlength, List.append_assoc line available text'] at hread
      rw [readP2pLineLoop_inside hchunk havailable]
      by_cases hfits : line.length + available.length ≤ maxP2pMessageBytes
      · rw [if_pos hfits]
        exact hread
      · -- too long already, and the whole line is longer still
        have hlong : ¬line.length + (available ++ text').length + 1 ≤ maxP2pMessageBytes := by
          rw [List.length_append]
          omega
        rw [if_neg hlong, if_neg hfits]
    · rw [readP2pLineLoop_break htext]
      split
      · refine ⟨_, rfl, ?_⟩
        split
        · next hnil => exact ⟨by rw [hnil, List.nil_append], hrestChunks⟩
        · next hne => exact ⟨List.flatten_cons, List.forall_mem_cons.mpr ⟨hne, hrestChunks⟩⟩
      · rfl

/-! ## Relaying -/

/-- The length of the line in which a block is sent, from the widths of its fields. -/
def Block.relayLength (b : Block) : ℕ := 30 + b.jsonLength

/-- What a node needs to send, receive and reorganise to a block: its line is read whole however it
is cut into chunks, every orphan pool takes it, and no candidate pool finds it too large. -/
structure Relayed (O : Oracle) (b : Block) : Prop where
  received : ∀ (chunks : List Bytes) (rest : Bytes), (∀ chunk ∈ chunks, chunk ≠ []) →
    chunks.flatten = blockBodyLine b ++ rest →
      ∃ left, readP2pLine chunks = .ok (true, blockBodyLine b, left) ∧ left.flatten = rest
  orphaned : ∀ s : SledStorage, ∃ s', s.storeOrphanBlock O.withJson b = .ok s'
  retained : ∀ (s : SledStorage) (work : U128),
    s.storeCandidateBlock O.withJson b work ≠
      .error (.serialization "candidate block exceeds size limit")

theorem plainChar_powAlgorithm (O : Oracle) : ∀ c ∈ (powAlgorithm O).toList, Json.PlainChar c := by
  unfold powAlgorithm
  split
  · decide
  · decide

theorem BlockAccepted.plainChar {O : Oracle} {parent : BlockHeader} {genesisHash : Hash256}
    {activation : Option U64} (h : BlockAccepted O parent b genesisHash activation) :
    ∀ c ∈ b.header.powAlgorithm.toList, Json.PlainChar c := by
  rw [h.header.algorithm]
  exact plainChar_powAlgorithm O

section Accepted

variable {O : Oracle} {b : Block} (hplain : ∀ c ∈ b.header.powAlgorithm.toList, Json.PlainChar c)

include hplain

theorem length_blockBodyLine : (blockBodyLine b).length = b.relayLength := by
  unfold blockBodyLine Block.relayLength
  rw [List.length_append, length_blockBodyMessage, Block.length_json hplain, List.length_singleton]
  omega

/-- **Reading a block's line**, from any chunks. -/
theorem readP2pLine_blockBodyLine {chunks : List Bytes} {rest : Bytes}
    (hchunks : ∀ chunk ∈ chunks, chunk ≠ []) (h : chunks.flatten = blockBodyLine b ++ rest) :
    if b.relayLength ≤ maxP2pMessageBytes then
      ∃ left, readP2pLine chunks = .ok (true, blockBodyLine b, left) ∧ left.flatten = rest
    else readP2pLine chunks = .error "peer message exceeds size limit" := by
  have hline : chunks.flatten = blockBodyMessage b ++ 10 :: rest := by
    rw [h, blockBodyLine, List.append_assoc, List.singleton_append]
  have hread := readP2pLineLoop_of_ascii [] (plain_blockBodyMessage hplain).inLine hchunks hline
  have hlength : ([] : Bytes).length + (blockBodyMessage b).length + 1 = b.relayLength := by
    rw [← length_blockBodyLine hplain, blockBodyLine, List.length_append, List.length_nil,
      List.length_singleton]
    omega
  rw [hlength] at hread
  split
  · next hfits =>
    rw [if_pos hfits] at hread
    obtain ⟨left, hleft, hflatten, -⟩ := hread
    exact ⟨left, hleft, hflatten⟩
  · next hlong => rwa [if_neg hlong] at hread

theorem readP2pLine_of_long (hlong : ¬b.relayLength ≤ maxP2pMessageBytes) :
    readP2pLine [blockBodyLine b] = .error "peer message exceeds size limit" := by
  have hflatten : [blockBodyLine b].flatten = blockBodyLine b ++ [] := by simp
  have hread := readP2pLine_blockBodyLine hplain (by simp [blockBodyLine]) hflatten
  rwa [if_neg hlong] at hread

theorem storeOrphanBlock_withJson (s : SledStorage) :
    (∃ s', s.storeOrphanBlock O.withJson b = .ok s') ↔ b.jsonLength ≤ SledStorage.maxOrphanBytes := by
  rw [← Block.length_json hplain]
  simp [SledStorage.storeOrphanBlock, Oracle.withJson, -bind_pure_comp]

theorem storeCandidateBlock_withJson (s : SledStorage) (work : U128) :
    s.storeCandidateBlock O.withJson b work =
        .error (.serialization "candidate block exceeds size limit") ↔
      SledStorage.maxCandidateBytes < b.jsonLength := by
  rw [← Block.length_json hplain]
  unfold SledStorage.storeCandidateBlock Oracle.withJson
  split
  · next hlong => exact iff_of_true rfl hlong
  · next hfits =>
    refine iff_of_false (fun herror => ?_) hfits
    dsimp only at herror
    split at herror
    · simp [throw, throwThe, MonadExceptOf.throw] at herror
    · simp [pure, Except.pure] at herror

/-- The line is longer than the text the pools measure, and the limits are the same. -/
theorem relayed_iff : Relayed O b ↔ b.relayLength ≤ maxP2pMessageBytes := by
  constructor
  · intro h
    obtain ⟨left, hread, -⟩ := h.received [blockBodyLine b] [] (by simp [blockBodyLine]) (by simp)
    by_contra hlong
    rw [readP2pLine_of_long hplain hlong] at hread
    exact absurd hread (by simp)
  · intro hfits
    have hjson : b.jsonLength ≤ 2 * 1024 * 1024 := by
      unfold Block.relayLength maxP2pMessageBytes at hfits
      omega
    refine ⟨fun chunks rest hchunks h => ?_, fun s => ?_, fun s work => ?_⟩
    · have hread := readP2pLine_blockBodyLine hplain hchunks h
      rwa [if_pos hfits] at hread
    · exact (storeOrphanBlock_withJson hplain s).mpr hjson
    · rw [Ne, storeCandidateBlock_withJson hplain]
      exact Nat.not_lt.mpr hjson

end Accepted

/-! ## Against the canonical bytes -/

theorem length_putBytes (bs : Bytes) : (putBytes bs).length = 8 + bs.length := by
  unfold putBytes
  rw [List.length_append, length_toBeBytes]

theorem length_flatMap_putBytes (f : α → Bytes) (l : List α) :
    (l.flatMap fun a => putBytes (f a)).length = (l.map fun a => 8 + (f a).length).sum := by
  rw [List.length_flatMap]
  simp only [length_putBytes]

theorem Block.length_canonicalBytes (b : Block) :
    b.canonicalBytes.length = b.header.canonicalBytes.length + 16 +
      (b.transactions.map fun t => 8 + t.canonicalBytes.length).sum +
      (b.receipts.map fun r => 8 + r.canonicalBytes.length).sum := by
  unfold Block.canonicalBytes
  simp only [List.length_append, length_toBeBytes, length_flatMap_putBytes]
  omega

/-! ## Accepted blocks -/

/-- **An accepted block is relayed and retained exactly if its line fits.** -/
theorem accepted_relayed_iff (O : Oracle) (parent : BlockHeader) (b : Block) (genesisHash : Hash256)
    (activation : Option U64)
    (h : validateBlockWithGenesisAndActivation O parent b genesisHash activation = .ok ()) :
    Relayed O b ↔ b.relayLength ≤ maxP2pMessageBytes :=
  relayed_iff (validateBlock_eq_ok.mp h).plainChar

/-! ## Full payloads -/

/-- A transaction with the largest payload, every byte of which takes three digits. -/
def fullPayload : Transaction where
  chainId := mainnetChainId
  transactionType := 2
  nonce := 0
  from_ := 0
  to_ := some 0
  value := 0
  gasLimit := 21000
  maxFeePerGas := BitVec.ofNat 128 (10 ^ 18)
  maxPriorityFeePerGas := 0
  payload := List.replicate maxTransactionPayloadBytes 255
  accessList := []
  signature := some ⟨false, 1, 1⟩
  externalHash := none

/-- Five such transactions on genesis: about a third of the canonical limit. -/
def fullPayloadBlock : Block where
  header := { genesisHeader zeroOracle with
    number := 1
    timestampSeconds := 30
    baseFeePerGas := nextBaseFeePerGas (genesisHeader zeroOracle) }
  transactions := List.replicate 5 fullPayload
  receipts := List.replicate 5 ⟨0, true, 21000, 0, []⟩

theorem payload_fullPayload :
    fullPayload.payload = List.replicate maxTransactionPayloadBytes 255 := rfl

theorem length_fullPayload : fullPayload.payload.length = maxTransactionPayloadBytes := by
  rw [payload_fullPayload, List.length_replicate]

theorem length_canonicalBytes_fullPayload : fullPayload.canonicalBytes.length = 131259 := by
  unfold Transaction.canonicalBytes
  simp only [List.length_append, length_putBytes, length_fullPayload]
  decide +kernel

theorem length_canonicalBytes_fullPayloadBlock :
    fullPayloadBlock.canonicalBytes.length ≤ maxBlockBytes := by
  have hreceipt : (⟨0, true, 21000, 0, []⟩ : Receipt).canonicalBytes.length = 73 := by decide
  have hheader : fullPayloadBlock.header.canonicalBytes.length = 312 := by decide +kernel
  rw [Block.length_canonicalBytes, hheader]
  simp only [fullPayloadBlock, List.map_replicate, List.sum_replicate,
    length_canonicalBytes_fullPayload, hreceipt]
  decide

theorem blockAccepted_fullPayloadBlock :
    BlockAccepted zeroOracle (genesisHeader zeroOracle) fullPayloadBlock 0 (some 0) where
  header := by
    rw [← validateHeaderWithGenesis_eq_ok (u := ())]
    decide +kernel
  parentHash := rfl
  size _ := length_canonicalBytes_fullPayloadBlock
  receipts := by
    simp only [fullPayloadBlock, List.length_replicate]
  transactionsRoot := rfl
  receiptsRoot := rfl
  baseFee := rfl
  fees t ht := by
    obtain ⟨-, rfl⟩ := List.mem_replicate.mp ht
    simp only [validateTransactionFee, Result.throw_bind, Result.ite_throw_eq_ok,
      length_fullPayload]
    decide +kernel

theorem Transaction.bytesLength_payload_le (t : Transaction) :
    Json.bytesLength t.payload ≤ t.jsonLength := by
  unfold Transaction.jsonLength
  omega

theorem Block.not_relayLength_le (h : 2 * 1024 * 1024 < b.jsonLength) :
    ¬b.relayLength ≤ maxP2pMessageBytes := by
  unfold Block.relayLength maxP2pMessageBytes
  omega

theorem Block.jsonLength_of_replicate {t : Transaction} {n : ℕ}
    (h : b.transactions = List.replicate n t) : n * t.jsonLength ≤ b.jsonLength := by
  unfold Block.jsonLength Json.listLength
  rw [h, List.map_replicate, List.sum_replicate, smul_eq_mul]
  omega

theorem jsonLength_fullPayload : 524289 ≤ fullPayload.jsonLength := by
  have hpayload : Json.bytesLength fullPayload.payload = 524289 := by
    rw [payload_fullPayload, Json.bytesLength_replicate]
    decide
  exact le_trans hpayload.ge fullPayload.bytesLength_payload_le

theorem jsonLength_fullPayloadBlock : 2 * 1024 * 1024 < fullPayloadBlock.jsonLength := by
  have hpayload := jsonLength_fullPayload
  have hblock : 5 * fullPayload.jsonLength ≤ fullPayloadBlock.jsonLength :=
    Block.jsonLength_of_replicate rfl
  -- the lengths themselves are never computed
  generalize fullPayload.jsonLength = length at hpayload hblock
  generalize fullPayloadBlock.jsonLength = total at hblock ⊢
  omega

/-- **A valid block that no node can send, keep as an orphan or reorganise to.** -/
theorem fullPayloadBlock_not_relayed :
    blockSizeRuleActive fullPayloadBlock.header.number (some 0) = true ∧
    validateBlockWithGenesisAndActivation zeroOracle (genesisHeader zeroOracle) fullPayloadBlock 0
      (some 0) = .ok () ∧
    ¬Relayed zeroOracle fullPayloadBlock ∧
    readP2pLine [blockBodyLine fullPayloadBlock] = .error "peer message exceeds size limit" ∧
    (∀ s : SledStorage, ¬∃ s', s.storeOrphanBlock zeroOracle.withJson fullPayloadBlock = .ok s') ∧
    ∀ (s : SledStorage) (work : U128),
      s.storeCandidateBlock zeroOracle.withJson fullPayloadBlock work =
        .error (.serialization "candidate block exceeds size limit") := by
  have hplain := blockAccepted_fullPayloadBlock.plainChar
  have hlong := jsonLength_fullPayloadBlock
  have hline := Block.not_relayLength_le hlong
  refine ⟨by decide, validateBlock_eq_ok.mpr blockAccepted_fullPayloadBlock, ?_, ?_, ?_, ?_⟩
  · rw [relayed_iff hplain]
    exact hline
  · exact readP2pLine_of_long hplain hline
  · intro s
    rw [storeOrphanBlock_withJson hplain]
    exact Nat.not_le.mpr hlong
  · intro s work
    rw [storeCandidateBlock_withJson hplain]
    exact hlong

def shortPayloadBlock : Block :=
  { fullPayloadBlock with
    transactions := [{ fullPayload with payload := [0xa9, 5, 0xff] }]
    receipts := [⟨0, true, 21000, 0, [⟨7, [1, 2], [0x20, 0xff]⟩]⟩] }

theorem accepted_relayed_iff_shortPayload :
    validateBlockWithGenesisAndActivation zeroOracle (genesisHeader zeroOracle) shortPayloadBlock 0
      (some 0) = .ok () ∧ Relayed zeroOracle shortPayloadBlock := by
  have hvalid : validateBlockWithGenesisAndActivation zeroOracle (genesisHeader zeroOracle)
      shortPayloadBlock 0 (some 0) = .ok () := by decide +kernel
  exact ⟨hvalid, (accepted_relayed_iff zeroOracle (genesisHeader zeroOracle) _ 0 (some 0) hvalid).mpr
    (by decide +kernel)⟩

end Blq
