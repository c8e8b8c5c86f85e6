import Blq.Proof.StoreRows
import Blq.Spec.Logs

/-!
# Log queries through the index

`eth_getLogs` asks the index for one part of the filter only and reads the bodies the index names.

* `candidate_of_match`: a block with a matching log is named by the index, whichever part of the
  filter the index was asked for.
* `logBlocks_skip`: leaving out blocks without a match changes no answer.
* `indexed_query_exact`: **the query through the index answers as a scan of all blocks does**, in every
  database of a node and for every filter, malformed ones included.
-/

namespace Blq

open Word Result

/-! ## Filters -/

theorem mem_namedValues {α : Type} [BEq α] [LawfulBEq α] {fromHex : String → Option α} {value : α}
    {filter : JsonValue}
    (h : matchesValue (fun json => json.text?.any fun text => fromHex text == some value) filter) :
    value ∈ namedValues fromHex filter := by
  cases filter with
  | str text =>
    have hread : fromHex text = some value := by simpa [matchesValue, JsonValue.text?] using h
    simp [namedValues, hread]
  | arr values =>
    obtain ⟨json, hjson, hnames⟩ := List.any_eq_true.mp h
    cases htext : json.text? with
    | none => simp [htext] at hnames
    | some text =>
      have hread : fromHex text = some value := by simpa [htext] using hnames
      refine List.mem_filterMap.mpr ⟨json, hjson, ?_⟩
      rw [htext]
      exact hread
  | null => simp [matchesValue] at h
  | bool b => simp [matchesValue] at h
  | int n => simp [matchesValue] at h
  | float q => simp [matchesValue] at h
  | obj members => simp [matchesValue] at h

theorem mem_indexedLogAddresses {filter : Option JsonValue} {addresses : List Address}
    {address : Address} (hasked : indexedLogAddresses filter = some addresses)
    (h : logAddressMatches filter address) : address ∈ addresses := by
  cases filter with
  | none => exact absurd hasked (by simp [indexedLogAddresses])
  | some filter =>
    obtain rfl : namedValues Address.fromHex filter = addresses := by
      simpa [indexedLogAddresses] using hasked
    exact mem_namedValues h

theorem exists_mem_indexedLogTopics {filter : Option (List JsonValue)} {asked topics : List Hash256}
    (hasked : indexedLogTopics filter = some asked) (h : logTopicsMatch filter topics) :
    ∃ topic ∈ topics, topic ∈ asked := by
  cases filter with
  | none => exact absurd hasked (by simp [indexedLogTopics])
  | some filter =>
    cases hfind : filter.find? fun expected => !expected.isNull with
    | none =>
      exact absurd hasked (by simp [indexedLogTopics, hfind])
    | some expected =>
      obtain rfl : namedValues Hash256.fromHex expected = asked := by
        simpa [indexedLogTopics, hfind] using hasked
      have hclosed : expected.isNull = false := by simpa using List.find?_some hfind
      obtain ⟨index, hindex⟩ := List.mem_iff_getElem?.mp (List.mem_of_find?_eq_some hfind)
      -- the log has a topic at the position, and the position names it
      have hposition := List.all_eq_true.mp h (expected, index)
        (List.mem_zipIdx_iff_getElem?.mpr hindex)
      cases htopic : topics[index]? with
      | none => simp [htopic] at hposition
      | some topic =>
        have hnames : matchesValue (namesTopic topic) expected := by
          simpa [htopic, hclosed] using hposition
        exact ⟨topic, List.mem_of_getElem? htopic, mem_namedValues hnames⟩

/-! ## The index -/

variable {number : U64} {numbers : List U64}

namespace Rows

variable {O : Oracle} {rows : Rows} {block : Block}

theorem IndexedRows.collect (h : IndexedRows rows) {tag : RowKey} (htag : "log:index:".toList <+: tag)
    (first last : U64) :
    ∃ numbers, collectIndexedLogNumbers rows tag first last = .ok numbers ∧
      ∀ key value number, tag <+: key → rows[key]? = some value → logNumber value = .ok number →
        first.toNat ≤ number.toNat → number.toNat ≤ last.toNat → number ∈ numbers := by
  have hread : ∀ entry ∈ scanPrefix rows tag, ∃ number, logNumber entry.2 = .ok number := by
    rintro ⟨key, value⟩ hentry
    obtain ⟨hkey, hrow⟩ := mem_scanPrefix.mp hentry
    obtain ⟨location, number, -, hvalue, hnumber⟩ := h.logRow key value (htag.trans hkey) hrow
    exact ⟨number, hvalue ▸ hnumber⟩
  obtain ⟨numbers, hnumbers⟩ := exists_mapM_eq_ok hread
  refine ⟨numbers.filter fun number => first.toNat ≤ number.toNat ∧ number.toNat ≤ last.toNat, ?_,
    fun key value number hkey hrow hnumber hfirst hlast => ?_⟩
  · unfold collectIndexedLogNumbers
    rw [hnumbers]
    rfl
  · obtain ⟨number', hmem, hnumber'⟩ := forall_of_mapM_eq_ok hnumbers (key, value)
      (mem_scanPrefix.mpr ⟨hkey, hrow⟩)
    obtain rfl := Except.ok.inj (hnumber.symm.trans hnumber')
    exact List.mem_filter.mpr ⟨hmem, by simpa using ⟨hfirst, hlast⟩⟩

theorem isPrefix_of_mem_askedTags {addresses : Option (List Address)} {topics : Option (List Hash256)}
    {tag : RowKey} (h : tag ∈ askedTags addresses topics) : "log:index:".toList <+: tag := by
  unfold askedTags at h
  split at h
  · obtain ⟨address, -, rfl⟩ := List.mem_map.mp h
    unfold logAddressPrefix
    rw [List.append_assoc]
    exact (by decide : "log:index:".toList <+: "log:index:address:".toList).trans (List.prefix_append _ _)
  · obtain ⟨topic, -, rfl⟩ := List.mem_map.mp h
    unfold logTopicPrefix
    rw [List.append_assoc]
    exact (by decide : "log:index:".toList <+: "log:index:topic:".toList).trans (List.prefix_append _ _)
  · obtain rfl := List.mem_singleton.mp h
    decide

/-- **The index answers**, and names every number in the range that a row under one of the keys
has. -/
theorem IndexedRows.indexedNumbers (h : IndexedRows rows) (first last : U64)
    (addresses : Option (List Address)) (topics : Option (List Hash256)) :
    ∃ numbers, indexedLogBlockNumbers rows first last addresses topics = .ok numbers ∧
      ∀ tag ∈ askedTags addresses topics, ∀ key value number, tag <+: key → rows[key]? = some value →
        logNumber value = .ok number → first.toNat ≤ number.toNat → number.toNat ≤ last.toNat →
          number ∈ numbers := by
  have hcollect : ∀ tag ∈ askedTags addresses topics, ∃ numbers,
      collectIndexedLogNumbers rows tag first last = .ok numbers := by
    intro tag htag
    obtain ⟨numbers, hnumbers, -⟩ := h.collect (isPrefix_of_mem_askedTags htag) first last
    exact ⟨numbers, hnumbers⟩
  obtain ⟨parts, hparts⟩ := exists_mapM_eq_ok hcollect
  refine ⟨parts.flatten, ?_, fun tag htag key value number hkey hrow hnumber hfirst hlast => ?_⟩
  · unfold indexedLogBlockNumbers
    rw [hparts]
    rfl
  · obtain ⟨part, hpart, hread⟩ := forall_of_mapM_eq_ok hparts tag htag
    obtain ⟨numbers, hnumbers, hfound⟩ := h.collect (isPrefix_of_mem_askedTags htag) first last
    obtain rfl := Except.ok.inj (hread.symm.trans hnumbers)
    exact List.mem_flatten.mpr ⟨part, hpart, hfound key value number hkey hrow hnumber hfirst hlast⟩

theorem exists_asked_row {addressFilter : Option JsonValue} {topicFilter : Option (List JsonValue)}
    {receipt : Receipt} {log : LogEntry} {transactionIndex logIndex : ℕ}
    (hreceipt : block.receipts[transactionIndex]? = some receipt)
    (hlog : receipt.logs[logIndex]? = some log) (haddress : logAddressMatches addressFilter log.address)
    (htopics : logTopicsMatch topicFilter log.topics) :
    ∃ tag ∈ askedTags (indexedLogAddresses addressFilter) (indexedLogTopics topicFilter),
      ∃ write ∈ logRows block, tag <+: write.1 := by
  have hrows : ∀ write, write ∈ (
      (logLocationKey (logIndexBytes block.header.number transactionIndex logIndex),
        RowValue.bytes (logIndexBytes block.header.number transactionIndex logIndex)) ::
      (logAddressKey log.address (logIndexBytes block.header.number transactionIndex logIndex),
        RowValue.bytes (logIndexBytes block.header.number transactionIndex logIndex)) ::
      log.topics.map fun topic =>
        (logTopicKey topic (logIndexBytes block.header.number transactionIndex logIndex),
          RowValue.bytes (logIndexBytes block.header.number transactionIndex logIndex))) →
      write ∈ logRows block := by
    intro write hwrite
    refine List.mem_flatMap.mpr ⟨(receipt, transactionIndex),
      List.mem_zipIdx_iff_getElem?.mpr hreceipt, ?_⟩
    exact List.mem_flatMap.mpr ⟨(log, logIndex), List.mem_zipIdx_iff_getElem?.mpr hlog, hwrite⟩
  unfold askedTags
  split
  next addresses hasked =>
    refine ⟨_, List.mem_map_of_mem (mem_indexedLogAddresses hasked haddress), _,
      hrows _ (List.mem_cons_of_mem _ List.mem_cons_self), ?_⟩
    unfold logAddressPrefix logAddressKey
    exact ⟨_, by rw [List.append_assoc, List.singleton_append]⟩
  next asked hasked =>
    obtain ⟨topic, htopic, hmem⟩ := exists_mem_indexedLogTopics hasked htopics
    refine ⟨_, List.mem_map_of_mem hmem, _, hrows _ (List.mem_cons_of_mem _
      (List.mem_cons_of_mem _ (List.mem_map_of_mem htopic))), ?_⟩
    unfold logTopicPrefix logTopicKey
    exact ⟨_, by rw [List.append_assoc, List.singleton_append]⟩
  next =>
    exact ⟨_, List.mem_singleton_self _, _, hrows _ List.mem_cons_self, List.prefix_append _ _⟩

/-- **A block with a matching log is a candidate.** -/
theorem candidate_of_match (h : IndexedRows rows) {addressFilter : Option JsonValue}
    {topicFilter : Option (List JsonValue)} {first last : U64}
    (hindexed : indexedLogBlockNumbers rows first last (indexedLogAddresses addressFilter)
      (indexedLogTopics topicFilter) = .ok numbers) (hread : blockByNumber rows number = .ok block)
    (hfirst : first.toNat ≤ number.toNat) (hlast : number.toNat ≤ last.toNat)
    (hmatch : matchingLogs O addressFilter topicFilter block ≠ []) : number ∈ numbers := by
  obtain ⟨json, hjson⟩ := List.exists_mem_of_ne_nil _ hmatch
  obtain ⟨⟨⟨transaction, receipt⟩, transactionIndex⟩, hpair, hjson⟩ := List.mem_flatMap.mp hjson
  obtain ⟨⟨log, logIndex⟩, hlog, -⟩ := List.mem_map.mp hjson
  obtain ⟨hplace, hfilter⟩ := List.mem_filter.mp hlog
  obtain ⟨haddress, htopics⟩ := Bool.and_eq_true_iff.mp hfilter
  have hreceipt : block.receipts[transactionIndex]? = some receipt := by
    have hzip := List.mem_zipIdx_iff_getElem?.mp hpair
    exact (List.getElem?_zip_eq_some.mp hzip).2
  obtain ⟨tag, htag, write, hwrite, hkey⟩ := exists_asked_row hreceipt
    (List.mem_zipIdx_iff_getElem?.mp hplace) haddress htopics
  obtain ⟨location, -, hvalue, hnumber⟩ := logRow_of_mem hwrite
  rw [h.number_of_block hread] at hnumber
  obtain ⟨numbers', hnumbers', hfound⟩ := h.indexedNumbers first last
    (indexedLogAddresses addressFilter) (indexedLogTopics topicFilter)
  obtain rfl := Except.ok.inj (hindexed.symm.trans hnumbers')
  have hrow := h.indexed number block (blockByNumber_eq_ok.mp hread) write hwrite
  exact hfound tag htag write.1 write.2 number hkey hrow (hvalue ▸ hnumber) hfirst hlast

end Rows

/-! ## The query -/

section Query

variable {O : Oracle} {peers : BodyPeers} {storage : ChainStorage} {indexed : List U64}

theorem logBlocks_cons_ok {rest : List U64} {block : Block} {fetched : ℕ}
    (hread : storage.blockByNumber number = .ok block) :
    logBlocks O peers storage indexed fetched (number :: rest) =
      (logBlocks O peers storage indexed fetched rest).map fun blocks =>
        (if indexed.contains number then some block else none).toList ++ blocks := by
  have hfirst : logBlock O peers storage indexed fetched number =
      .ok (if indexed.contains number then some block else none, fetched) := by
    unfold logBlock
    rw [hread]
    rfl
  rw [logBlocks, hfirst, ok_bind]
  dsimp only
  cases logBlocks O peers storage indexed fetched rest <;> rfl

theorem logBlock_of_failure {e : NodeError} {fetched : ℕ}
    (hread : storage.blockByNumber number = .error e) (he : e ≠ .storage .notFound) :
    logBlock O peers storage indexed fetched number = .error (.server e.message) := by
  unfold logBlock
  rw [hread]
  split
  next heq => exact absurd heq (by simp)
  next heq => exact absurd (Except.error.inj heq) he
  next heq => rw [Except.error.inj heq]; rfl

theorem logBlock_of_error {every : List U64} {e : NodeError} {fetched : ℕ}
    (hread : storage.blockByNumber number = .error e) :
    logBlock O peers storage indexed fetched number = logBlock O peers storage every fetched number := by
  by_cases he : e = .storage .notFound
  · unfold logBlock
    rw [hread, he]
  · rw [logBlock_of_failure hread he, logBlock_of_failure hread he]

/-- **Blocks without a match may be left out.** -/
theorem logBlocks_skip {every : List U64} {matching : Block → List JsonValue}
    (hevery : ∀ number ∈ numbers, number ∈ every)
    (hskip : ∀ number ∈ numbers, ∀ block, storage.blockByNumber number = .ok block →
      matching block ≠ [] → number ∈ indexed) (fetched : ℕ) :
    (logBlocks O peers storage indexed fetched numbers).map (List.flatMap matching) =
      (logBlocks O peers storage every fetched numbers).map (List.flatMap matching) := by
  induction numbers generalizing fetched with
  | nil => rfl
  | cons number rest ih =>
    have hrest := ih (fun n hn => hevery n (List.mem_cons_of_mem _ hn))
      fun n hn => hskip n (List.mem_cons_of_mem _ hn)
    cases hread : storage.blockByNumber number with
    | ok block =>
      have hmem : every.contains number := by simpa using hevery number List.mem_cons_self
      -- the block is looked through on both sides, or it has no match
      have hfirst : ∀ blocks, (((if indexed.contains number then some block else none).toList ++
          blocks : List Block)).flatMap matching = matching block ++ blocks.flatMap matching := by
        intro blocks
        split_ifs with hindexed
        · rfl
        · have hnone : matching block = [] := by
            by_contra hmatch
            exact hindexed (by simpa using hskip number List.mem_cons_self block hread hmatch)
          rw [hnone]
          rfl
      rw [logBlocks_cons_ok hread, logBlocks_cons_ok hread, if_pos hmem]
      have hlater := hrest fetched
      cases hx : logBlocks O peers storage indexed fetched rest <;>
        cases hy : logBlocks O peers storage every fetched rest <;>
        simp only [hx, hy, Except.map, reduceCtorEq, Except.ok.injEq, Except.error.injEq] at hlater ⊢
      · exact hlater
      · rw [hfirst, hlater]
        rfl
    | error e =>
      rw [logBlocks, logBlocks, logBlock_of_error hread]
      cases hstep : logBlock O peers storage every fetched number with
      | error e' => rfl
      | ok step =>
        obtain ⟨block, fetched'⟩ := step
        have hlater := hrest fetched'
        show ((logBlocks O peers storage indexed fetched' rest) >>= fun blocks =>
          pure (block.toList ++ blocks)).map _ = ((logBlocks O peers storage every fetched' rest) >>=
            fun blocks => pure (block.toList ++ blocks)).map _
        cases hx : logBlocks O peers storage indexed fetched' rest <;>
          cases hy : logBlocks O peers storage every fetched' rest <;>
          simp only [hx, hy, Except.map, reduceCtorEq, Except.ok.injEq, Except.error.injEq] at hlater
        · rw [hlater]
        · simp only [ok_bind, pure, Except.pure, Except.map, List.flatMap_append, hlater]

theorem head?_heights {first last : U64} (h : first.toNat ≤ last.toNat) :
    (SledStorage.heights first last).head? = some first := by
  unfold SledStorage.heights
  have hlength : last.toNat + 1 - first.toNat = (last.toNat - first.toNat) + 1 := by omega
  rw [hlength, List.range'_succ]
  simp

theorem logBlockNumbers_bounds {filter : JsonValue} {latest : U64}
    (h : logBlockNumbers storage filter latest = .ok numbers) :
    ∀ number ∈ numbers, (numbers.head?.getD 0).toNat ≤ number.toNat ∧
      number.toNat ≤ (numbers.getLast?.getD 0).toNat := by
  have hsingle : ∀ n : U64, ∀ number ∈ [n], (([n] : List U64).head?.getD 0).toNat ≤ number.toNat ∧
      number.toNat ≤ (([n] : List U64).getLast?.getD 0).toNat := by
    intro n number hnumber
    obtain rfl := List.mem_singleton.mp hnumber
    exact ⟨le_rfl, le_rfl⟩
  unfold logBlockNumbers at h
  split at h
  · simp only [throw_bind, ite_throw_eq_ok] at h
    obtain ⟨-, h⟩ := h
    split at h
    · exact absurd h throw_ne_ok
    unfold hashBlockNumbers at h
    split at h
    · exact absurd h throw_ne_ok
    split at h
    · obtain rfl := pure_eq_ok.mp h
      exact hsingle _
    · obtain rfl := pure_eq_ok.mp h
      simp
    · exact absurd h throw_ne_ok
  · simp only [throw_bind, bind_eq_ok, ite_throw_eq_ok, pure_eq_ok] at h
    obtain ⟨first, -, last, -, hrange, rfl⟩ := h
    have hle : first.toNat ≤ last.toNat := by omega
    rw [head?_heights hle, getLast?_heights hle]
    exact fun number hnumber => mem_heights.mp hnumber

/-- The answer without the index: every body of the range that is here is looked through. -/
def scanLogs (O : Oracle) (peers : BodyPeers) (rows : Rows) (filter : JsonValue) : Rpc JsonValue := do
  let storage := rows.reader O
  let best ← orServerError storage.bestHeader
  let numbers ← logBlockNumbers storage filter best.number
  let blocks ← logBlocks O peers storage numbers 0 numbers
  pure (.arr (blocks.flatMap (matchingLogs O (filter.member? "address")
    ((filter.member? "topics").bind JsonValue.asArray?))))

/-- On rows whose index is complete the query answers as the scan does. -/
theorem getLogs_eq_scanLogs {rows : Rows} (hindex : Rows.IndexedRows rows) (peers : BodyPeers)
    (filter : JsonValue) : getLogs O peers rows filter = scanLogs O peers rows filter := by
  unfold getLogs scanLogs
  dsimp only
  cases hbest : orServerError (rows.reader O).bestHeader with
  | error e => rfl
  | ok best =>
    rw [ok_bind, ok_bind]
    cases hnumbers : logBlockNumbers (rows.reader O) filter best.number with
    | error e => rfl
    | ok numbers =>
      rw [ok_bind, ok_bind]
      obtain ⟨indexed, hindexed, -⟩ := hindex.indexedNumbers (numbers.head?.getD 0)
        (numbers.getLast?.getD 0) (indexedLogAddresses (filter.member? "address"))
        (indexedLogTopics ((filter.member? "topics").bind JsonValue.asArray?))
      have hbounds := logBlockNumbers_bounds hnumbers
      have hskip : (logBlocks O peers (rows.reader O) indexed 0 numbers).map (List.flatMap
            (matchingLogs O (filter.member? "address")
              ((filter.member? "topics").bind JsonValue.asArray?))) =
          (logBlocks O peers (rows.reader O) numbers 0 numbers).map (List.flatMap
            (matchingLogs O (filter.member? "address")
              ((filter.member? "topics").bind JsonValue.asArray?))) :=
        logBlocks_skip (fun number hnumber => hnumber)
          (fun number hnumber block hread hmatch => Rows.candidate_of_match hindex hindexed hread
            (hbounds number hnumber).1 (hbounds number hnumber).2 hmatch) 0
      have hindexedOk : orServerError (.ok indexed) = (.ok indexed : Rpc (List U64)) := rfl
      rw [hindexed, hindexedOk, ok_bind]
      -- the answer is made from the matches alone
      cases hx : logBlocks O peers (rows.reader O) indexed 0 numbers <;>
        cases hy : logBlocks O peers (rows.reader O) numbers 0 numbers <;>
        simp only [hx, hy, Except.map, reduceCtorEq, Except.ok.injEq, Except.error.injEq] at hskip
      · rw [hskip]
      · simp only [ok_bind, hskip]

/-- **The query through the index answers as the scan does.** -/
theorem indexed_query_exact {rows : Rows} (h : Rows.Store O rows) (peers : BodyPeers)
    (filter : JsonValue) : getLogs O peers rows filter = scanLogs O peers rows filter :=
  getLogs_eq_scanLogs h.sound.index peers filter

end Query

def noPeers : BodyPeers where
  bodies _ _ := []

def relayFilter : JsonValue :=
  .obj [("fromBlock", .str "0x0"), ("address", .arr [.str "0x", .str (Address.toHex 8)]),
    ("topics", .arr [.null])]

theorem exists_store_relayChain : ∃ rows,
    Rows.relayChain.foldlM (Rows.insertBlock nonceOracle) ∅ = .ok rows ∧
      Rows.Store nonceOracle rows := by
  obtain ⟨rows, hrows⟩ : ∃ rows, Rows.relayChain.foldlM (Rows.insertBlock nonceOracle) ∅ = .ok rows :=
    exists_ok_of_isOk (by decide +kernel)
  have hempty : ∀ best, Rows.getBestNumber ∅ ≠ .ok best := fun best => by
    unfold Rows.getBestNumber
    simp [throw_ne_ok]
  exact ⟨rows, hrows, Rows.Store.empty.insertAll hrows (by decide +kernel)
    fun best hbest => absurd hbest (hempty best)⟩

theorem indexed_query_exact_relayChain : ∃ rows,
    Rows.relayChain.foldlM (Rows.insertBlock nonceOracle) ∅ = .ok rows ∧
      getLogs nonceOracle noPeers rows relayFilter = scanLogs nonceOracle noPeers rows relayFilter := by
  obtain ⟨rows, hrows, hstore⟩ := exists_store_relayChain
  exact ⟨rows, hrows, indexed_query_exact hstore noPeers relayFilter⟩

end Blq
