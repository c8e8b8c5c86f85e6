import Blq.Proof.LogIndex

/-!
# Answers of log queries

What `eth_getLogs` answers for the hash of a block, and the positions it reports for logs.

* `parseHex_hexQuantity`: a quantity that was written is read back.
* `hash_query_iff`: a query by hash answers with the logs of the canonical block of that hash
  **exactly when no other block is found in its place**: a hash of a candidate is resolved to the
  candidate's height, and the body is then read at that height of the canonical chain.
* `log_indexes_iff`: the positions reported for the logs of a block are distinct **exactly when at
  most one of its receipts has logs**; they start anew in each receipt.
-/

namespace Blq

open Word Result

/-! ## Quantities -/

theorem radixStep_digitChar {width value digit : ℕ} (hdigit : digit < 16)
    (hroom : value * 16 + digit < 2 ^ width) :
    radixStep width value (Nat.digitChar digit) = .ok (value * 16 + digit) := by
  unfold radixStep
  rw [hexValue_digitChar hdigit]
  exact if_pos hroom

theorem foldlM_radixStep {width n : ℕ} (h : n < 2 ^ width) :
    (Nat.toDigits 16 n).foldlM (radixStep width) 0 = .ok n := by
  induction n using Nat.strongRecOn with
  | _ n ih =>
    rw [Nat.toDigits_eq_if (by omega)]
    split_ifs with hsmall
    · rw [List.foldlM_cons, radixStep_digitChar hsmall (by omega)]
      simp [pure, Except.pure, bind, Except.bind]
    · -- the last digit comes off the end
      have hfirst := ih (n / 16) (by omega) (by omega)
      have hvalue : n / 16 * 16 + n % 16 = n := by omega
      rw [List.foldlM_append, hfirst, ok_bind, List.foldlM_cons,
        radixStep_digitChar (Nat.mod_lt _ (by omega)) (by omega), hvalue]
      rfl

theorem head?_toDigits_ne_plus (n : ℕ) : ∃ c rest, Nat.toDigits 16 n = c :: rest ∧ c ≠ '+' := by
  have hall : ∀ digit : Fin 16, Nat.digitChar digit ≠ '+' := by decide
  induction n using Nat.strongRecOn with
  | _ n ih =>
    rw [Nat.toDigits_eq_if (by omega)]
    split_ifs with hsmall
    · exact ⟨_, _, rfl, hall ⟨n, hsmall⟩⟩
    · obtain ⟨c, rest, hdigits, hc⟩ := ih (n / 16) (by omega)
      exact ⟨c, rest ++ [(n % 16).digitChar], by rw [hdigits]; rfl, hc⟩

/-- **A quantity that was written is read back.** -/
theorem parseHex_hexQuantity {width n : ℕ} (h : n < 2 ^ width) :
    parseHex width (hexQuantity n) = .ok (BitVec.ofNat width n) := by
  obtain ⟨c, rest, hdigits, hc⟩ := head?_toDigits_ne_plus n
  have htext : (hexQuantity n).toList = '0' :: 'x' :: c :: rest := by
    simp [hexQuantity, hdigits]
  have hread : (c :: rest).foldlM (radixStep width) 0 = .ok n := hdigits ▸ foldlM_radixStep h
  have hplain : fromStrRadix width (c :: rest) =
      (c :: rest).foldlM (radixStep width) 0 >>= fun value => pure (BitVec.ofNat width value) := by
    unfold fromStrRadix
    split
    · next heq => exact absurd heq (by simp)
    · next heq => exact absurd (List.cons.inj heq).1 hc
    · next heq => exact absurd (List.cons.inj heq).1 hc
    · rfl
  unfold parseHex
  rw [htext]
  show fromStrRadix width (c :: rest) = _
  rw [hplain, hread]
  rfl

theorem hexQuantity_injective : Function.Injective hexQuantity := by
  intro a b h
  -- both are read back at a width that holds them
  have ha : a < 2 ^ (a + b) := lt_of_lt_of_le Nat.lt_two_pow_self (Nat.pow_le_pow_right (by omega) (by omega))
  have hb : b < 2 ^ (a + b) := lt_of_lt_of_le Nat.lt_two_pow_self (Nat.pow_le_pow_right (by omega) (by omega))
  have hread := parseHex_hexQuantity ha
  rw [h, parseHex_hexQuantity hb] at hread
  have hvalue := congrArg BitVec.toNat (Except.ok.inj hread)
  rw [toNat_ofNat_of_lt ha, toNat_ofNat_of_lt hb] at hvalue
  exact hvalue.symm

theorem quantity_injective : Function.Injective quantity :=
  fun _ _ h => hexQuantity_injective (JsonValue.str.inj h)

/-! ## The block of a hash -/

namespace Rows

variable {O : Oracle} {rows : Rows} {hash : Hash256}

def CanonicalHeader (O : Oracle) (rows : Rows) (hash : Hash256) (header : BlockHeader) : Prop :=
  headerByNumber rows header.number = .ok header ∧ header.hash O = hash

theorem findHeader_cases {entries : List (RowKey × RowValue)}
    (h : ∀ entry ∈ entries, ∃ header, entry.2 = .header header) :
    (∃ header, (∃ key, (key, RowValue.header header) ∈ entries) ∧ header.hash O = hash ∧
      findHeader O hash entries = .ok (some header)) ∨
    ((∀ key header, (key, RowValue.header header) ∈ entries → header.hash O ≠ hash) ∧
      findHeader O hash entries = .ok none) := by
  induction entries with
  | nil => exact .inr ⟨fun _ _ hmem => absurd hmem List.not_mem_nil, rfl⟩
  | cons entry rest ih =>
    obtain ⟨key, value⟩ := entry
    obtain ⟨header, hvalue⟩ := h (key, value) List.mem_cons_self
    obtain rfl : value = .header header := hvalue
    by_cases hhash : header.hash O = hash
    · refine .inl ⟨header, ⟨key, List.mem_cons_self⟩, hhash, ?_⟩
      rw [findHeader, if_pos hhash]
      rfl
    · have hskip : findHeader O hash ((key, .header header) :: rest) = findHeader O hash rest := by
        rw [findHeader, if_neg hhash]
      rw [hskip]
      rcases ih fun entry hentry => h entry (List.mem_cons_of_mem _ hentry) with
        ⟨found, ⟨key', hmem⟩, hfound, hresult⟩ | ⟨hnone, hresult⟩
      · exact .inl ⟨found, ⟨key', List.mem_cons_of_mem _ hmem⟩, hfound, hresult⟩
      · refine .inr ⟨fun key' header' hmem => ?_, hresult⟩
        rcases List.mem_cons.mp hmem with heq | hmem
        · obtain ⟨rfl, hheader⟩ := Prod.mk.inj heq
          obtain rfl := RowValue.header.inj hheader
          exact hhash
        · exact hnone key' header' hmem

theorem headerByHash_eq (O : Oracle) (rows : Rows) (hash : Hash256) : headerByHash O rows hash =
    findHeader O hash (scanPrefix rows "header:number:".toList) >>= fun found => match found with
      | some header => pure header
      | none => candidateBlockByHash rows hash >>= fun block => pure block.header := rfl

/-- **A hash is resolved to a canonical header, or else to a candidate.** -/
theorem headerByHash_cases (h : IndexedRows rows) :
    (∃ header, CanonicalHeader O rows hash header ∧ headerByHash O rows hash = .ok header) ∨
    ((∀ header, ¬CanonicalHeader O rows hash header) ∧
      headerByHash O rows hash = (candidateBlockByHash rows hash).map (·.header)) := by
  have hheaders : ∀ entry ∈ scanPrefix rows "header:number:".toList,
      ∃ header, entry.2 = .header header := by
    rintro ⟨key, value⟩ hentry
    obtain ⟨hkey, hrow⟩ := mem_scanPrefix.mp hentry
    obtain ⟨header, hvalue, -⟩ := h.header key value hkey hrow
    exact ⟨header, hvalue⟩
  rcases @findHeader_cases O hash _ hheaders with
    ⟨header, ⟨key, hmem⟩, hhash, hfound⟩ | ⟨hnone, hfound⟩
  · obtain ⟨hkey, hrow⟩ := mem_scanPrefix.mp hmem
    obtain ⟨header', hvalue, hown⟩ := h.header key _ hkey hrow
    obtain rfl := RowValue.header.inj hvalue
    refine .inl ⟨header, ⟨headerByNumber_eq_ok.mpr (hown ▸ hrow), hhash⟩, ?_⟩
    rw [headerByHash_eq, hfound]
    rfl
  · refine .inr ⟨fun header hcanonical => ?_, ?_⟩
    · obtain ⟨hread, hhash⟩ := hcanonical
      exact hnone _ header (mem_scanPrefix.mpr
        ⟨List.prefix_append _ _, headerByNumber_eq_ok.mp hread⟩) hhash
    · rw [headerByHash_eq, hfound, ok_bind]
      cases candidateBlockByHash rows hash <;> rfl

theorem loadRpcBlock_some {peers : BodyPeers} {number : U64} {block : Block}
    (hload : loadRpcBlock O peers (rows.reader O) number = .ok (some block)) :
    blockByNumber rows number = .ok block ∨ ∃ header, headerByNumber rows number = .ok header ∧
      block.header.number = number ∧ block.header.hash O = header.hash O := by
  unfold loadRpcBlock at hload
  split at hload
  next stored hread =>
    obtain rfl : stored = block := Option.some.inj (pure_eq_ok.mp hload)
    exact .inl hread
  next =>
    split at hload
    next header hheader =>
      have hfound := List.find?_some (pure_eq_ok.mp hload)
      exact .inr ⟨header, hheader, of_decide_eq_true hfound⟩
    next => exact absurd (pure_eq_ok.mp hload) (by simp)
    next => exact absurd hload throw_ne_ok
  next => exact absurd hload throw_ne_ok

theorem hash_of_loadRpcBlock (h : IndexedRows rows) {peers : BodyPeers} {number : U64}
    {header : BlockHeader} {block : Block} (hheader : headerByNumber rows number = .ok header)
    (hload : loadRpcBlock O peers (rows.reader O) number = .ok (some block)) :
    block.header.hash O = header.hash O := by
  rcases loadRpcBlock_some hload with hread | ⟨header', hheader', -, hhash⟩
  · have hrow := headerByNumber_eq_ok.mpr (h.bodyHeader number block (blockByNumber_eq_ok.mp hread))
    rw [Except.ok.inj (hheader.symm.trans hrow)]
  · rw [hhash, Except.ok.inj (hheader.symm.trans hheader')]

end Rows

section Query

variable {O : Oracle} {peers : BodyPeers} {rows : Rows} {filter : JsonValue}

def filteredLogs (O : Oracle) (filter : JsonValue) (block : Block) : List JsonValue :=
  matchingLogs O (filter.member? "address") ((filter.member? "topics").bind JsonValue.asArray?) block

theorem blockHash_of_mem_filteredLogs {block : Block} {log : JsonValue}
    (h : log ∈ filteredLogs O filter block) :
    log.member? "blockHash" = some (hashText (block.header.hash O)) := by
  obtain ⟨⟨⟨transaction, receipt⟩, transactionIndex⟩, -, hlog⟩ := List.mem_flatMap.mp h
  obtain ⟨⟨entry, logIndex⟩, -, rfl⟩ := List.mem_map.mp hlog
  rfl

def answerBlock (O : Oracle) (filter : JsonValue) : Option Block → Rpc JsonValue
  | some block => pure (.arr (filteredLogs O filter block))
  | none => throw (.server "historical log block body unavailable")

theorem loadRpcBlock_cases (O : Oracle) (peers : BodyPeers) (storage : ChainStorage) (number : U64) :
    (∃ block, storage.blockByNumber number = .ok block ∧
      loadRpcBlock O peers storage number = .ok (some block)) ∨
    storage.blockByNumber number = .error (.storage .notFound) ∨
    (∃ e, storage.blockByNumber number = .error e ∧ e ≠ .storage .notFound ∧
      loadRpcBlock O peers storage number = .error e) := by
  unfold loadRpcBlock
  cases hbody : storage.blockByNumber number with
  | ok block => exact .inl ⟨block, rfl, rfl⟩
  | error e =>
    by_cases he : e = .storage .notFound
    · exact .inr (.inl (by rw [he]))
    · refine .inr (.inr ⟨e, rfl, he, ?_⟩)
      split
      next heq => exact absurd heq (by simp)
      next heq => exact absurd (Except.error.inj heq) he
      next heq => rw [Except.error.inj heq]; rfl

variable {tip : BlockHeader}

theorem scanLogs_eq (htip : rows.bestHeader = .ok tip) : scanLogs O peers rows filter =
    logBlockNumbers (rows.reader O) filter tip.number >>= fun numbers =>
      (logBlocks O peers (rows.reader O) numbers 0 numbers).map fun blocks =>
        .arr (blocks.flatMap (filteredLogs O filter)) := by
  have hread : orServerError (rows.reader O).bestHeader = .ok tip := by
    show orServerError rows.bestHeader = _
    rw [htip]
    rfl
  unfold scanLogs
  dsimp only
  rw [hread, ok_bind]
  refine bind_congr fun numbers => ?_
  cases logBlocks O peers (rows.reader O) numbers 0 numbers <;> rfl

theorem scanLogs_single {number : U64} (htip : rows.bestHeader = .ok tip)
    (hnumbers : logBlockNumbers (rows.reader O) filter tip.number = .ok [number]) :
    scanLogs O peers rows filter =
      orServerError (loadRpcBlock O peers (rows.reader O) number) >>= answerBlock O filter := by
  rw [scanLogs_eq htip, hnumbers, ok_bind]
  rcases loadRpcBlock_cases O peers (rows.reader O) number with ⟨block, hbody, hload⟩ | hbody |
    ⟨e, hbody, he, hload⟩
  · have hown : ([number] : List U64).contains number := by simp
    rw [logBlocks_cons_ok hbody, hload, if_pos hown]
    show Except.ok _ = Except.ok _
    simp
  · -- the body is fetched
    have hroom : ¬(0 + 1 > maxRpcRemoteLogBlocks) := by decide
    unfold logBlocks logBlock
    simp only [hbody, if_neg hroom]
    cases loadRpcBlock O peers (rows.reader O) number with
    | error e => rfl
    | ok found =>
      cases found with
      | none => rfl
      | some block =>
        show Except.ok _ = Except.ok _
        simp
  · rw [hload, logBlocks, logBlock_of_failure hbody he]
    rfl

structure AsksHash (filter : JsonValue) (hash : Hash256) : Prop where
  named : ∃ text, filter.member? "blockHash" = some (.str text) ∧ Hash256.fromHex text = some hash
  noFirst : filter.member? "fromBlock" = none
  noLast : filter.member? "toBlock" = none

variable {hash : Hash256}

theorem logBlockNumbers_hash (h : AsksHash filter hash) (storage : ChainStorage) (latest : U64) :
    logBlockNumbers storage filter latest = hashBlockNumbers storage hash := by
  obtain ⟨text, hmember, hread⟩ := h.named
  unfold logBlockNumbers
  simp only [hmember, h.noFirst, h.noLast, Option.isSome_none, Bool.false_eq_true, or_self, if_false,
    JsonValue.text?, hread]

/-- What a query for a hash should be answered with: **the matching logs of the canonical block with
that hash, each of which names it**, or none if there is no such block. It may fail without a tip, and
for a canonical block whose body is neither here nor with a peer. -/
inductive AnswersHash (O : Oracle) (peers : BodyPeers) (rows : Rows) (filter : JsonValue)
    (hash : Hash256) (answer : Rpc JsonValue) : Prop
  | tipless (e : NodeError) (refusal : RpcError) : rows.bestHeader = .error e →
      answer = .error refusal → AnswersHash O peers rows filter hash answer
  | block (header : BlockHeader) (block : Block) : rows.CanonicalHeader O hash header →
      loadRpcBlock O peers (rows.reader O) header.number = .ok (some block) →
      answer = .ok (.arr (filteredLogs O filter block)) →
      (∀ log ∈ filteredLogs O filter block, log.member? "blockHash" = some (hashText hash)) →
      AnswersHash O peers rows filter hash answer
  | bodiless (header : BlockHeader) (refusal : RpcError) : rows.CanonicalHeader O hash header →
      (∀ block, loadRpcBlock O peers (rows.reader O) header.number ≠ .ok (some block)) →
      answer = .error refusal → AnswersHash O peers rows filter hash answer
  | unknown : (∀ header, ¬rows.CanonicalHeader O hash header) → answer = .ok (.arr []) →
      AnswersHash O peers rows filter hash answer

theorem not_answersHash_of_foreign {answer : Rpc JsonValue} {logs : List JsonValue} {log : JsonValue}
    (hanswer : answer = .ok (.arr logs)) (hlog : log ∈ logs)
    (hforeign : log.member? "blockHash" ≠ some (hashText hash)) :
    ¬AnswersHash O peers rows filter hash answer := by
  rintro (⟨e, refusal, -, hfail⟩ | ⟨header, block, -, -, hblock, hown⟩ | ⟨header, refusal, -, -, hfail⟩ |
    ⟨-, hnone⟩)
  · exact absurd (hanswer.symm.trans hfail) (by simp)
  · obtain rfl : logs = filteredLogs O filter block :=
      JsonValue.arr.inj (Except.ok.inj (hanswer.symm.trans hblock))
    exact hforeign (hown log hlog)
  · exact absurd (hanswer.symm.trans hfail) (by simp)
  · obtain rfl : logs = [] := JsonValue.arr.inj (Except.ok.inj (hanswer.symm.trans hnone))
    exact List.not_mem_nil hlog

theorem getLogs_hash (O : Oracle) (peers : BodyPeers) (h : Rows.IndexedRows rows)
    (hfilter : AsksHash filter hash) (htip : rows.bestHeader = .ok tip) :
    getLogs O peers rows filter = match rows.headerByHash O hash with
      | .ok header =>
        orServerError (loadRpcBlock O peers (rows.reader O) header.number) >>= answerBlock O filter
      | .error (.storage .notFound) => pure (.arr [])
      | .error e => throw (.server e.message) := by
  have hnumbers := logBlockNumbers_hash hfilter (rows.reader O) tip.number
  have hreader : (rows.reader O).headerByHash hash = rows.headerByHash O hash := rfl
  rw [getLogs_eq_scanLogs h]
  rw [hashBlockNumbers, hreader] at hnumbers
  split
  next header hfound =>
    rw [hfound] at hnumbers
    exact scanLogs_single htip hnumbers
  next hfound =>
    rw [hfound] at hnumbers
    rw [scanLogs_eq htip, hnumbers]
    rfl
  next e _ hfound =>
    simp only [hfound] at hnumbers
    rw [scanLogs_eq htip, hnumbers]
    rfl

/-- When the height that a hash is resolved to belongs to that hash, or shows nothing. -/
inductive Resolves (O : Oracle) (peers : BodyPeers) (rows : Rows) (filter : JsonValue)
    (hash : Hash256) : Prop
  | tipless (e : NodeError) : rows.bestHeader = .error e → Resolves O peers rows filter hash
  | canonical (header : BlockHeader) : rows.CanonicalHeader O hash header →
      Resolves O peers rows filter hash
  | absent : rows.candidateBlockByHash hash = .error (.storage .notFound) →
      Resolves O peers rows filter hash
  | silent (candidate block : Block) : rows.candidateBlockByHash hash = .ok candidate →
      loadRpcBlock O peers (rows.reader O) candidate.header.number = .ok (some block) →
      filteredLogs O filter block = [] → Resolves O peers rows filter hash

theorem answersHash_of_canonical (h : Rows.IndexedRows rows) {header : BlockHeader}
    (hcanonical : rows.CanonicalHeader O hash header) (hanswer : getLogs O peers rows filter =
      orServerError (loadRpcBlock O peers (rows.reader O) header.number) >>= answerBlock O filter) :
    AnswersHash O peers rows filter hash (getLogs O peers rows filter) := by
  rw [hanswer]
  cases hload : loadRpcBlock O peers (rows.reader O) header.number with
  | error e => exact .bodiless header (.server e.message) hcanonical (by simp [hload]) rfl
  | ok found =>
    cases found with
    | none =>
      exact .bodiless header (.server "historical log block body unavailable") hcanonical
        (by simp [hload]) rfl
    | some block =>
      refine .block header block hcanonical hload rfl fun log hlog => ?_
      rw [blockHash_of_mem_filteredLogs hlog, Rows.hash_of_loadRpcBlock h hcanonical.1 hload,
        hcanonical.2]

theorem answersHash_iff_of_unknown {answer : Rpc JsonValue} (htip : rows.bestHeader = .ok tip)
    (hunknown : ∀ header, ¬rows.CanonicalHeader O hash header) :
    AnswersHash O peers rows filter hash answer ↔ answer = .ok (.arr []) := by
  constructor
  · rintro (⟨e, refusal, hfail, -⟩ | ⟨header, block, hcanonical, -, -, -⟩ |
      ⟨header, refusal, hcanonical, -, -⟩ | ⟨-, hnone⟩)
    · exact absurd (htip.symm.trans hfail) (by simp)
    · exact absurd hcanonical (hunknown header)
    · exact absurd hcanonical (hunknown header)
    · exact hnone
  · exact fun hnone => .unknown hunknown hnone

theorem resolves_iff_of_unknown (htip : rows.bestHeader = .ok tip)
    (hunknown : ∀ header, ¬rows.CanonicalHeader O hash header) :
    Resolves O peers rows filter hash ↔
      rows.candidateBlockByHash hash = .error (.storage .notFound) ∨
        ∃ candidate block, rows.candidateBlockByHash hash = .ok candidate ∧
          loadRpcBlock O peers (rows.reader O) candidate.header.number = .ok (some block) ∧
            filteredLogs O filter block = [] := by
  constructor
  · rintro (⟨e, hfail⟩ | ⟨header, hcanonical⟩ | habsent | ⟨candidate, block, hcandidate, hload, hnone⟩)
    · exact absurd (htip.symm.trans hfail) (by simp)
    · exact absurd hcanonical (hunknown header)
    · exact .inl habsent
    · exact .inr ⟨candidate, block, hcandidate, hload, hnone⟩
  · rintro (habsent | ⟨candidate, block, hcandidate, hload, hnone⟩)
    · exact .absent habsent
    · exact .silent candidate block hcandidate hload hnone

theorem answerBlock_eq_empty {loaded : Except NodeError (Option Block)} :
    orServerError loaded >>= answerBlock O filter = .ok (.arr []) ↔
      ∃ block, loaded = .ok (some block) ∧ filteredLogs O filter block = [] := by
  cases loaded with
  | error e => exact ⟨fun h => absurd h (by simp [orServerError, Except.mapError, bind, Except.bind]),
      fun ⟨block, hloaded, _⟩ => absurd hloaded (by simp)⟩
  | ok found =>
    cases found with
    | none => exact ⟨fun h => absurd h throw_ne_ok, fun ⟨block, hloaded, _⟩ => absurd hloaded (by simp)⟩
    | some block =>
      constructor
      · intro h
        exact ⟨block, rfl, JsonValue.arr.inj (Except.ok.inj h)⟩
      · rintro ⟨block', hloaded, hnone⟩
        obtain rfl := Option.some.inj (Except.ok.inj hloaded)
        show Except.ok (JsonValue.arr (filteredLogs O filter block)) = _
        rw [hnone]

/-- **A query by hash is answered from the block of that hash** exactly when the hash is canonical or
belongs to no candidate, or the canonical block at the candidate's height has no matching log. -/
theorem hash_query_iff (h : Rows.Store O rows) (peers : BodyPeers) (hfilter : AsksHash filter hash) :
    AnswersHash O peers rows filter hash (getLogs O peers rows filter) ↔
      Resolves O peers rows filter hash := by
  have hindex := h.sound.index
  cases htip : rows.bestHeader with
  | error e =>
    have hanswer : getLogs O peers rows filter = .error (.server e.message) := by
      unfold getLogs
      show orServerError rows.bestHeader >>= _ = _
      rw [htip]
      rfl
    exact ⟨fun _ => .tipless e htip, fun _ => .tipless e _ htip hanswer⟩
  | ok tip =>
    have hquery := getLogs_hash O peers hindex hfilter htip
    rcases Rows.headerByHash_cases hindex with ⟨header, hcanonical, hfound⟩ | ⟨hunknown, hfound⟩
    · rw [hfound] at hquery
      exact ⟨fun _ => .canonical header hcanonical,
        fun _ => answersHash_of_canonical hindex hcanonical hquery⟩
    · rw [answersHash_iff_of_unknown htip hunknown, resolves_iff_of_unknown htip hunknown, hquery, hfound]
      cases hcandidate : rows.candidateBlockByHash hash with
      | error e =>
        by_cases he : e = .storage .notFound
        · rw [he]
          exact ⟨fun _ => .inl rfl, fun _ => rfl⟩
        · -- a row that is no block refuses the query
          refine ⟨fun hanswer => ?_, ?_⟩
          · simp only [Except.map] at hanswer
            exact absurd hanswer throw_ne_ok
          · rintro (habsent | ⟨candidate, block, hfound, -⟩)
            · exact absurd (Except.error.inj habsent) he
            · exact absurd hfound (by simp)
      | ok candidate =>
        refine answerBlock_eq_empty.trans ⟨?_, ?_⟩
        · rintro ⟨block, hload, hnone⟩
          exact .inr ⟨candidate, block, rfl, hload, hnone⟩
        · rintro (habsent | ⟨candidate', block, hsame, hload, hnone⟩)
          · exact absurd habsent (by simp)
          · obtain rfl := Except.ok.inj hsame
            exact ⟨block, hload, hnone⟩

end Query

def asideBlock : Block := Rows.relayBlock 0 1 2

def asideRows : Except NodeError Rows := do
  let rows ← Rows.relayChain.foldlM (Rows.insertBlock nonceOracle) ∅
  pure (rows.insert (Rows.candidateBlockKey 2) (.block asideBlock))

def asideFilter : JsonValue := .obj [("blockHash", hashText 2)]

theorem asksHash_asideFilter : AsksHash asideFilter 2 where
  named := ⟨"0x" ++ Hash256.toHex 2, rfl, by decide +kernel⟩
  noFirst := rfl
  noLast := rfl

theorem exists_store_asideRows : ∃ rows, asideRows = .ok rows ∧ Rows.Store nonceOracle rows := by
  obtain ⟨rows, hrows, hstore⟩ := exists_store_relayChain
  refine ⟨rows.insert (Rows.candidateBlockKey 2) (.block asideBlock), ?_, ?_⟩
  · unfold asideRows
    rw [hrows]
    rfl
  · have hchain : ¬Rows.ChainKey (Rows.candidateBlockKey 2) := by
      unfold Rows.ChainKey
      decide +kernel
    exact hstore.write _ _ hchain (by decide +kernel)

def soleBlockHash (answer : Rpc JsonValue) : Option String :=
  match answer with
  | .ok (.arr [log]) => (log.member? "blockHash").bind JsonValue.text?
  | _ => none

theorem hash_query_iff_asideBlock : ∃ rows, asideRows = .ok rows ∧
    (AnswersHash nonceOracle noPeers rows asideFilter 2 (getLogs nonceOracle noPeers rows asideFilter) ↔
      Resolves nonceOracle noPeers rows asideFilter 2) := by
  obtain ⟨rows, hrows, hstore⟩ := exists_store_asideRows
  exact ⟨rows, hrows, hash_query_iff hstore noPeers asksHash_asideFilter⟩

/-- Asked for the candidate, the node answers with the log of the canonical block at its height. -/
theorem candidate_hash_shows_other_block : ∃ rows, Rows.Store nonceOracle rows ∧
    AsksHash asideFilter 2 ∧
    soleBlockHash (getLogs nonceOracle noPeers rows asideFilter) = some ("0x" ++ Hash256.toHex 1) ∧
    ¬AnswersHash nonceOracle noPeers rows asideFilter 2
      (getLogs nonceOracle noPeers rows asideFilter) := by
  obtain ⟨rows, hrows, hstore⟩ := exists_store_asideRows
  have hrun : (asideRows.toOption.bind fun rows =>
      soleBlockHash (getLogs nonceOracle noPeers rows asideFilter)) =
        some ("0x" ++ Hash256.toHex 1) := by decide +kernel
  rw [hrows] at hrun
  have hsole : soleBlockHash (getLogs nonceOracle noPeers rows asideFilter) =
      some ("0x" ++ Hash256.toHex 1) := hrun
  refine ⟨rows, hstore, asksHash_asideFilter, hsole, ?_⟩
  have hanswer := hsole
  unfold soleBlockHash at hanswer
  split at hanswer
  next log hlogs =>
    refine not_answersHash_of_foreign hlogs (List.mem_singleton_self log) fun hown => ?_
    rw [hown] at hanswer
    exact absurd hanswer (by decide +kernel)
  next => exact absurd hanswer (by simp)

/-! ## The positions of logs -/

section Positions

variable (O : Oracle) (block : Block)

def blockReceiptLogs : List JsonValue :=
  (block.transactions.zip block.receipts).zipIdx.flatMap fun ((_, receipt), transactionIndex) =>
    receiptLogs O receipt block.header transactionIndex

def logIndexes (logs : List JsonValue) : List (Option JsonValue) :=
  logs.map (JsonValue.member? "logIndex")

/-- The positions as they are counted: anew in every receipt. -/
def countedIndexes : List ℕ :=
  (block.transactions.zip block.receipts).flatMap fun pair => List.range pair.2.logs.length

/-- The positions that queries and receipts report for the logs of a block agree, and they number
the logs of the block in order. -/
structure NumbersLogs : Prop where
  agree : ∀ addressFilter topicFilter,
    (logIndexes (matchingLogs O addressFilter topicFilter block)).Sublist
      (logIndexes (blockReceiptLogs O block))
  whole : logIndexes (matchingLogs O none none block) = logIndexes (blockReceiptLogs O block)
  distinct : ∃ numbers : List ℕ, numbers.Pairwise (· < ·) ∧
    logIndexes (blockReceiptLogs O block) = numbers.map fun n => some (quantity n)

variable {O}

def indexText (n : ℕ) : Option JsonValue := some (quantity n)

theorem indexText_injective : Function.Injective indexText :=
  fun _ _ h => quantity_injective (Option.some.inj h)

theorem logIndexes_receipts :
    logIndexes (blockReceiptLogs O block) =
      (block.transactions.zip block.receipts).zipIdx.flatMap fun ((_, receipt), _) =>
        receipt.logs.zipIdx.map fun (_, logIndex) => indexText logIndex := by
  unfold logIndexes blockReceiptLogs receiptLogs
  rw [List.map_flatMap]
  refine List.flatMap_congr fun pair _ => ?_
  rw [List.map_map]
  rfl

theorem logIndexes_blockReceiptLogs :
    logIndexes (blockReceiptLogs O block) = (countedIndexes block).map indexText := by
  have hpairs : countedIndexes block = (block.transactions.zip block.receipts).zipIdx.flatMap
      fun pair => List.range pair.1.2.logs.length := by
    unfold countedIndexes
    nth_rewrite 1 [← List.zipIdx_map_fst 0 (block.transactions.zip block.receipts)]
    rw [List.flatMap_map]
  rw [hpairs, List.map_flatMap, logIndexes_receipts]
  refine List.flatMap_congr fun pair _ => ?_
  rw [List.range_eq_range', ← List.zipIdx_map_snd 0 pair.1.2.logs, List.map_map]
  rfl

theorem logIndexes_matchingLogs (addressFilter : Option JsonValue)
    (topicFilter : Option (List JsonValue)) (block : Block) :
    logIndexes (matchingLogs O addressFilter topicFilter block) =
      (block.transactions.zip block.receipts).zipIdx.flatMap fun ((_, receipt), _) =>
        (receipt.logs.zipIdx.filter fun (log, _) =>
          logAddressMatches addressFilter log.address && logTopicsMatch topicFilter log.topics).map
            fun (_, logIndex) => indexText logIndex := by
  unfold logIndexes matchingLogs
  rw [List.map_flatMap]
  refine List.flatMap_congr fun pair _ => ?_
  rw [List.map_map]
  rfl

/-- The positions are in order exactly when of any two receipts one has no log. -/
theorem pairwise_countedIndexes :
    (countedIndexes block).Pairwise (· < ·) ↔
      (block.transactions.zip block.receipts).Pairwise fun earlier later =>
        earlier.2.logs = [] ∨ later.2.logs = [] := by
  unfold countedIndexes
  rw [List.pairwise_flatMap]
  constructor
  · rintro ⟨-, hpairs⟩
    refine hpairs.imp fun {earlier later} hbelow => ?_
    -- two receipts with logs both report the position zero
    by_contra hlogs
    obtain ⟨hearlier, hlater⟩ := not_or.mp hlogs
    have hzero := hbelow 0 (List.mem_range.mpr (List.length_pos_of_ne_nil hearlier)) 0
      (List.mem_range.mpr (List.length_pos_of_ne_nil hlater))
    omega
  · intro hpairs
    refine ⟨fun pair _ => List.pairwise_lt_range, hpairs.imp fun {earlier later} hlogs x hx y hy => ?_⟩
    rcases hlogs with hnone | hnone
    · rw [hnone] at hx
      exact absurd hx (by simp)
    · rw [hnone] at hy
      exact absurd hy (by simp)

/-- **The positions number the logs of a block exactly when of any two receipts one has no log.** -/
theorem log_indexes_iff (O : Oracle) (block : Block) :
    NumbersLogs O block ↔ (block.transactions.zip block.receipts).Pairwise fun earlier later =>
      earlier.2.logs = [] ∨ later.2.logs = [] := by
  rw [← pairwise_countedIndexes]
  constructor
  · rintro ⟨-, -, numbers, hsorted, hnumbers⟩
    rw [logIndexes_blockReceiptLogs] at hnumbers
    have hsame : countedIndexes block = numbers := indexText_injective.list_map hnumbers
    exact hsame ▸ hsorted
  · intro hsorted
    refine ⟨fun addressFilter topicFilter => ?_, ?_, countedIndexes block, hsorted,
      logIndexes_blockReceiptLogs block⟩
    · rw [logIndexes_matchingLogs, logIndexes_receipts]
      exact List.Sublist.flatMap_right _ fun pair _ => List.filter_sublist.map _
    · rw [logIndexes_matchingLogs, logIndexes_receipts]
      refine List.flatMap_congr fun pair _ => ?_
      have hall : pair.1.2.logs.zipIdx.filter (fun entry =>
          logAddressMatches none entry.1.address && logTopicsMatch none entry.1.topics) =
            pair.1.2.logs.zipIdx := List.filter_eq_self.mpr fun _ _ => rfl
      exact congrArg (List.map _) hall

end Positions

def twoLogBlock : Block where
  header := (emptyBlock 0 1 0 1).header
  transactions := [Rows.relayedTransaction, Rows.relayedTransaction]
  receipts := (Rows.relayBlock 0 1 1).receipts ++ (Rows.relayBlock 0 1 1).receipts

/-- Both logs are reported at the position zero. -/
theorem two_logs_share_an_index :
    logIndexes (matchingLogs nonceOracle none none twoLogBlock) = [some (quantity 0), some (quantity 0)] ∧
      ¬NumbersLogs nonceOracle twoLogBlock := by
  refine ⟨rfl, ?_⟩
  rintro ⟨-, -, numbers, hsorted, hnumbers⟩
  rw [logIndexes_blockReceiptLogs] at hnumbers
  have hsame : countedIndexes twoLogBlock = numbers := indexText_injective.list_map hnumbers
  rw [← hsame] at hsorted
  exact absurd hsorted (by decide +kernel)

end Blq
