import Blq.Proof.RoundTrip
import Blq.Spec.Rows

/-!
# The keys of the rows

A key determines what it was made from, and its first characters say which family it belongs to.
The rows of a block are of five families, none of them those of the accounts:

* `mem_removedKeys`: what a block leaves in the first four is what is removed with it.
* `LogRow.unique`, `logRow_of_mem`: a log row holds the location that its key ends in.
* `chainKey_of_mem_batchRows`, `accountKey_of_mem_accountRows`: the families of what is written.
-/

namespace Blq

open Word Result

namespace Rows

variable {O : Oracle}

/-! ## Numbers and hashes in keys -/

theorem digitChar_inj {n m : ℕ} (hn : n < 16) (hm : m < 16)
    (h : Nat.digitChar n = Nat.digitChar m) : n = m := by
  have hvalue := congrArg hexValue h
  rw [hexValue_digitChar hn, hexValue_digitChar hm] at hvalue
  exact Option.some.inj hvalue

theorem paddedDecimal_inj {width n m : ℕ} (hn : n < 10 ^ width) (hm : m < 10 ^ width)
    (h : paddedDecimal width n = paddedDecimal width m) : n = m := by
  induction width generalizing n m with
  | zero =>
    rw [pow_zero] at hn hm
    omega
  | succ width ih =>
    rw [pow_succ] at hn hm
    obtain ⟨hhigh, hlow⟩ := List.append_inj' h rfl
    have hdigit : n % 10 = m % 10 := digitChar_inj (by omega) (by omega) (List.head_eq_of_cons_eq hlow)
    have hrest : n / 10 = m / 10 := ih (by omega) (by omega) hhigh
    omega

variable {number number' : U64} {hash hash' : Hash256} {tag key : RowKey}
  {write : RowKey × RowValue} {block : Block} {location : Bytes}

theorem number_inj (h : paddedDecimal 20 number.toNat = paddedDecimal 20 number'.toNat) :
    number = number' := by
  have hn := number.isLt
  have hm := number'.isLt
  exact BitVec.eq_of_toNat_eq (paddedDecimal_inj (by omega) (by omega) h)

theorem hexEncode_inj {bytes bytes' : Bytes}
    (h : (hexEncode bytes).toList = (hexEncode bytes').toList) : bytes = bytes' := by
  have hpairs := congrArg hexPairs h
  rw [hexPairs_hexEncode, hexPairs_hexEncode] at hpairs
  exact Except.ok.inj hpairs

theorem toHex_inj (h : hash.toHex.toList = hash'.toHex.toList) : hash = hash' := by
  exact beBytes_inj rfl (hexEncode_inj h)

theorem blockKey_inj (h : blockKey number = blockKey number') :
    number = number' := number_inj (List.append_cancel_left h)

theorem headerKey_inj (h : headerKey number = headerKey number') :
    number = number' := number_inj (List.append_cancel_left h)

/-! ## Families -/

def Apart (tag tag' : RowKey) : Prop := ¬tag <+: tag' ∧ ¬tag' <+: tag

instance (tag tag' : RowKey) : Decidable (Apart tag tag') := inferInstanceAs (Decidable (_ ∧ _))

theorem Apart.not_both {tag' : RowKey} (h : Apart tag tag') (hkey : tag <+: key) : ¬tag' <+: key := by
  intro hkey'
  rcases List.prefix_or_prefix_of_prefix hkey hkey' with hle | hle
  · exact h.1 hle
  · exact h.2 hle

theorem Apart.append_ne {tag' : RowKey} (h : Apart tag tag') (rest rest' : RowKey) :
    tag ++ rest ≠ tag' ++ rest' := by
  intro heq
  exact h.not_both (List.prefix_append tag rest) (heq ▸ List.prefix_append tag' rest')

def InFamilies (tags : List RowKey) (key : RowKey) : Prop := ∃ tag ∈ tags, tag <+: key

theorem InFamilies.not_isPrefix {tags : List RowKey} (h : InFamilies tags key)
    (hapart : ∀ tag' ∈ tags, Apart tag' tag) : ¬tag <+: key := by
  obtain ⟨tag', hmem, hkey⟩ := h
  exact (hapart tag' hmem).not_both hkey

theorem InFamilies.ne_append {tags : List RowKey} (h : InFamilies tags key)
    (hapart : ∀ tag' ∈ tags, Apart tag' tag) (rest : RowKey) : key ≠ tag ++ rest := by
  rintro rfl
  exact h.not_isPrefix hapart (List.prefix_append tag rest)

def chainTags : List RowKey :=
  ["block:number:".toList, "header:number:".toList, "transaction:".toList, "receipt:".toList,
    "log:index:".toList]

def ChainKey (key : RowKey) : Prop := ∃ tag ∈ chainTags, tag <+: key

def AccountKey (key : RowKey) : Prop := "account:".toList <+: key

theorem chainKey_append (h : tag ∈ chainTags) (rest : RowKey) :
    ChainKey (tag ++ rest) := ⟨tag, h, List.prefix_append tag rest⟩

theorem chainKey_blockKey (number : U64) : ChainKey (blockKey number) := chainKey_append (by decide) _

theorem chainKey_headerKey (number : U64) : ChainKey (headerKey number) :=
  chainKey_append (by decide) _

theorem not_chainKey (h : ∀ chainTag ∈ chainTags, Apart chainTag tag) (hkey : tag <+: key) :
    ¬ChainKey key := fun hchain => InFamilies.not_isPrefix hchain h hkey

theorem not_chainKey_of_accountKey (h : AccountKey key) : ¬ChainKey key := not_chainKey (by decide) h

theorem accountKey_append (h : "account:".toList <+: tag) (rest : RowKey) :
    AccountKey (tag ++ rest) := h.trans (List.prefix_append tag rest)

theorem accountKey_of_mem_accountRows {native : NativeAccounts} {evm : EvmStateSnapshot}
    (h : write ∈ accountRows native evm) : AccountKey write.1 := by
  unfold accountRows at h
  rw [List.mem_append, List.mem_flatMap, List.mem_flatMap] at h
  rcases h with ⟨⟨address, balance, nonce⟩, -, h⟩ | ⟨⟨address, account⟩, -, h⟩
  · simp only [List.mem_cons, List.not_mem_nil, or_false] at h
    rcases h with rfl | rfl
    · exact accountKey_append (by decide) _
    · exact accountKey_append (by decide) _
  · rw [List.mem_append] at h
    rcases h with h | h
    · split at h
      · exact absurd h List.not_mem_nil
      · obtain rfl := List.mem_singleton.mp h
        exact accountKey_append (by decide) _
    · obtain ⟨⟨slot, value⟩, -, rfl⟩ := List.mem_map.mp h
      show AccountKey (storageKey address slot)
      unfold storageKey
      rw [List.append_assoc]
      exact accountKey_append (by decide) _

theorem stateRows_keys {evm : EvmStateSnapshot} {totals : U64 × U128 × U128}
    (h : write ∈ (stateRows number evm totals).dropLast) :
    ¬ChainKey write.1 ∧ ¬AccountKey write.1 ∧ write.1 ≠ bestKey := by
  have hstate : "state:".toList <+: write.1 := by
    simp only [stateRows, List.dropLast_cons_cons, List.dropLast_singleton, List.mem_cons,
      List.not_mem_nil, or_false] at h
    rcases h with rfl | rfl | rfl | rfl | rfl
    · exact (show "state:".toList <+: "state:evm:snapshot:".toList by decide).trans
        (List.prefix_append _ _)
    · exact (by decide : "state:".toList <+: "state:rewards:indexed_to".toList)
    · exact (by decide : "state:".toList <+: "state:supply:indexed_to".toList)
    · exact (by decide : "state:".toList <+: "state:supply:total".toList)
    · exact (by decide : "state:".toList <+: "state:supply:burned".toList)
  refine ⟨not_chainKey (by decide) hstate, ?_, ?_⟩
  · exact (show Apart "state:".toList "account:".toList by decide).not_both hstate
  · intro hbest
    exact absurd (hbest ▸ hstate) (by decide)

/-! ## The rows of a block -/

def hashesOf (O : Oracle) (t : Transaction) : List Hash256 := t.hash O :: t.externalHash.toList

theorem rpcHash_or_hash (t : Transaction) (hash : Hash256) :
    hash = t.rpcHash O ∨ hash = t.hash O ↔ hash ∈ hashesOf O t := by
  unfold hashesOf Transaction.rpcHash
  cases t.externalHash with
  | none => simp
  | some external => simp [or_comm]

theorem mem_removedKeys :
    key ∈ removedKeys O block ↔ key = blockKey block.header.number ∨
      key = headerKey block.header.number ∨
      ∃ t ∈ block.transactions, ∃ hash ∈ hashesOf O t,
        key = transactionKey hash ∨ key = receiptKey hash := by
  unfold removedKeys
  rw [List.mem_cons, List.mem_cons, List.mem_flatMap]
  refine or_congr_right (or_congr_right (exists_congr fun t => and_congr_right fun _ => ?_))
  constructor
  · intro h
    rw [List.mem_append, List.mem_cons, List.mem_map] at h
    rcases h with (rfl | ⟨hash, hhash, rfl⟩) | h
    · exact ⟨_, List.mem_cons_self, .inl rfl⟩
    · exact ⟨hash, List.mem_cons_of_mem _ hhash, .inl rfl⟩
    · simp only [List.mem_cons, List.not_mem_nil, or_false] at h
      rcases h with rfl | rfl
      · exact ⟨_, (rpcHash_or_hash t _).mp (.inl rfl), .inr rfl⟩
      · exact ⟨_, List.mem_cons_self, .inr rfl⟩
  · rintro ⟨hash, hhash, rfl | rfl⟩
    · rw [List.mem_append]
      refine .inl ?_
      rcases List.mem_cons.mp hhash with rfl | hexternal
      · exact List.mem_cons_self
      · exact List.mem_cons_of_mem _ (List.mem_map_of_mem hexternal)
    · rw [List.mem_append]
      refine .inr ?_
      rcases (rpcHash_or_hash t hash).mpr hhash with rfl | rfl
      · exact List.mem_cons_self
      · exact List.mem_cons_of_mem _ List.mem_cons_self

theorem inFamilies_of_hash (h : key = transactionKey hash ∨ key = receiptKey hash) :
    InFamilies ["transaction:".toList, "receipt:".toList] key := by
  rcases h with rfl | rfl
  · exact ⟨_, by decide, List.prefix_append _ _⟩
  · exact ⟨_, by decide, List.prefix_append _ _⟩

theorem hash_inj (h : key = transactionKey hash ∨ key = receiptKey hash)
    (h' : key = transactionKey hash' ∨ key = receiptKey hash') : hash = hash' := by
  have hapart : Apart "transaction:".toList "receipt:".toList := by decide
  rcases h with rfl | rfl
  · exact toHex_inj (List.append_cancel_left (h'.resolve_right (hapart.append_ne _ _)))
  · exact toHex_inj (List.append_cancel_left (h'.resolve_left fun h => hapart.append_ne _ _ h.symm))

theorem blockKey_ne_headerKey : blockKey number ≠ headerKey number' :=
  (show Apart "block:number:".toList "header:number:".toList by decide).append_ne _ _

theorem number_of_blockKey_mem (h : blockKey number ∈ removedKeys O block) :
    block.header.number = number := by
  rcases mem_removedKeys.mp h with hkey | hkey | ⟨_, -, hash, -, hkey⟩
  · exact (blockKey_inj hkey).symm
  · exact absurd hkey blockKey_ne_headerKey
  · exact absurd rfl ((inFamilies_of_hash hkey).ne_append (by decide) _)

theorem number_of_headerKey_mem (h : headerKey number ∈ removedKeys O block) :
    block.header.number = number := by
  rcases mem_removedKeys.mp h with hkey | hkey | ⟨_, -, hash, -, hkey⟩
  · exact absurd hkey.symm blockKey_ne_headerKey
  · exact (headerKey_inj hkey).symm
  · exact absurd rfl ((inFamilies_of_hash hkey).ne_append (by decide) _)

/-- The key of a log row at a location. -/
inductive LogRow : RowKey → Bytes → Prop
  | location (location : Bytes) : LogRow (logLocationKey location) location
  | address (address : Address) (location : Bytes) : LogRow (logAddressKey address location) location
  | topic (topic : Hash256) (location : Bytes) : LogRow (logTopicKey topic location) location

/-- The location after a name of fixed length. -/
theorem location_inj {name name' : Bytes} (hlength : name.length = name'.length) {location' : Bytes}
    (h : (hexEncode name).toList ++ ':' :: (hexEncode location).toList =
      (hexEncode name').toList ++ ':' :: (hexEncode location').toList) : location = location' := by
  obtain ⟨-, htail⟩ := List.append_inj h (by rw [length_hexEncode, length_hexEncode, hlength])
  exact hexEncode_inj (List.tail_eq_of_cons_eq htail)

theorem location_ne_address (location location' : Bytes) (address : Address) :
    logLocationKey location ≠ logAddressKey address location' := by
  unfold logLocationKey logAddressKey
  rw [List.append_assoc]
  exact (show Apart "log:index:location:".toList "log:index:address:".toList by decide).append_ne _ _

theorem location_ne_topic (location location' : Bytes) (topic : Hash256) :
    logLocationKey location ≠ logTopicKey topic location' := by
  unfold logLocationKey logTopicKey
  rw [List.append_assoc]
  exact (show Apart "log:index:location:".toList "log:index:topic:".toList by decide).append_ne _ _

theorem address_ne_topic (location location' : Bytes) (address : Address) (topic : Hash256) :
    logAddressKey address location ≠ logTopicKey topic location' := by
  unfold logAddressKey logTopicKey
  rw [List.append_assoc, List.append_assoc]
  exact (show Apart "log:index:address:".toList "log:index:topic:".toList by decide).append_ne _ _

/-- **A key stands for one location.** -/
theorem LogRow.unique {location' : Bytes} (h : LogRow key location) (h' : LogRow key location') :
    location = location' := by
  generalize hkey : key = key' at h'
  cases h with
  | location =>
    cases h' with
    | location => exact hexEncode_inj (List.append_cancel_left hkey)
    | address => exact absurd hkey (location_ne_address _ _ _)
    | topic => exact absurd hkey (location_ne_topic _ _ _)
  | address =>
    cases h' with
    | location => exact absurd hkey.symm (location_ne_address _ _ _)
    | address =>
      unfold logAddressKey at hkey
      rw [List.append_assoc, List.append_assoc] at hkey
      exact location_inj (by simp [beBytes]) (List.append_cancel_left hkey)
    | topic => exact absurd hkey (address_ne_topic _ _ _ _)
  | topic =>
    cases h' with
    | location => exact absurd hkey.symm (location_ne_topic _ _ _)
    | address => exact absurd hkey.symm (address_ne_topic _ _ _ _)
    | topic =>
      unfold logTopicKey at hkey
      rw [List.append_assoc, List.append_assoc] at hkey
      exact location_inj (by simp [beBytes]) (List.append_cancel_left hkey)

theorem LogRow.isPrefix (h : LogRow key location) : "log:index:".toList <+: key := by
  have hlog : ∀ (tag rest : RowKey), "log:index:".toList <+: tag → "log:index:".toList <+: tag ++ rest :=
    fun tag rest htag => htag.trans (List.prefix_append tag rest)
  cases h with
  | location => exact hlog _ _ (by decide)
  | address =>
    unfold logAddressKey
    rw [List.append_assoc]
    exact hlog _ _ (by decide)
  | topic =>
    unfold logTopicKey
    rw [List.append_assoc]
    exact hlog _ _ (by decide)

theorem length_logIndexBytes (number : U64) (transactionIndex logIndex : ℕ) :
    (logIndexBytes number transactionIndex logIndex).length = 16 := by
  simp [logIndexBytes, beBytes]

theorem logNumber_logIndexBytes (number : U64) (transactionIndex logIndex : ℕ) :
    logNumber (.bytes (logIndexBytes number transactionIndex logIndex)) = .ok number := by
  have hfirst : (logIndexBytes number transactionIndex logIndex).take 8 = beBytes number := by
    unfold logIndexBytes
    rw [List.append_assoc]
    exact List.take_left' (by simp [beBytes])
  dsimp only [logNumber]
  rw [if_pos (length_logIndexBytes _ _ _), hfirst, ofBeBytes_beBytes rfl, ofNat_toNat]
  rfl

/-- **A log row holds the location its key ends in**, in the block it belongs to. -/
theorem logRow_of_mem (h : write ∈ logRows block) :
    ∃ location, LogRow write.1 location ∧ write.2 = .bytes location ∧
      logNumber (.bytes location) = .ok block.header.number := by
  unfold logRows at h
  obtain ⟨⟨receipt, transactionIndex⟩, -, h⟩ := List.mem_flatMap.mp h
  obtain ⟨⟨log, logIndex⟩, -, h⟩ := List.mem_flatMap.mp h
  have hnumber := logNumber_logIndexBytes block.header.number transactionIndex logIndex
  simp only [List.mem_cons, List.mem_map] at h
  rcases h with rfl | rfl | ⟨topic, -, rfl⟩
  · exact ⟨_, .location _, rfl, hnumber⟩
  · exact ⟨_, .address _ _, rfl, hnumber⟩
  · exact ⟨_, .topic _ _, rfl, hnumber⟩

theorem mem_transactionRows (h : write ∈ transactionRows O block) :
    ∃ t ∈ block.transactions, ∃ hash ∈ hashesOf O t,
      write.1 = transactionKey hash ∨ write.1 = receiptKey hash := by
  unfold transactionRows at h
  obtain ⟨⟨⟨t, receipt⟩, index⟩, hmem, h⟩ := List.mem_flatMap.mp h
  have ht : t ∈ block.transactions := (List.of_mem_zip (List.fst_mem_of_mem_zipIdx hmem)).1
  refine ⟨t, ht, ?_⟩
  simp only [List.cons_append, List.mem_cons, List.mem_append, List.mem_map, List.not_mem_nil,
    or_false] at h
  rcases h with rfl | ⟨hash, hhash, rfl⟩ | rfl | rfl
  · exact ⟨_, List.mem_cons_self, .inl rfl⟩
  · exact ⟨hash, List.mem_cons_of_mem _ hhash, .inl rfl⟩
  · exact ⟨_, (rpcHash_or_hash t _).mp (.inl rfl), .inr rfl⟩
  · exact ⟨_, List.mem_cons_self, .inr rfl⟩

/-- **Every row of a block is removed with it**, or found by the scan of the logs. -/
theorem removed_or_logRow (h : write ∈ batchRows O block) :
    write.1 ∈ removedKeys O block ∨ write ∈ logRows block := by
  unfold batchRows at h
  rw [List.mem_cons, List.mem_cons, List.mem_append] at h
  rcases h with rfl | rfl | h | h
  · exact .inl (mem_removedKeys.mpr (.inl rfl))
  · exact .inl (mem_removedKeys.mpr (.inr (.inl rfl)))
  · exact .inl (mem_removedKeys.mpr (.inr (.inr (mem_transactionRows h))))
  · exact .inr h

theorem chainKey_of_mem_removedKeys (h : key ∈ removedKeys O block) : ChainKey key := by
  rcases mem_removedKeys.mp h with rfl | rfl | ⟨_, -, hash, -, rfl | rfl⟩
  · exact chainKey_blockKey _
  · exact chainKey_headerKey _
  · exact chainKey_append (by decide) _
  · exact chainKey_append (by decide) _

theorem chainKey_of_mem_batchRows (h : write ∈ batchRows O block) : ChainKey write.1 := by
  rcases removed_or_logRow h with h | h
  · exact chainKey_of_mem_removedKeys h
  · obtain ⟨location, hrow, -⟩ := logRow_of_mem h
    exact ⟨"log:index:".toList, by decide, hrow.isPrefix⟩

/-! ## Two blocks -/

/-- A key that the block writes. -/
def OwnKey (O : Oracle) (block : Block) (key : RowKey) : Prop :=
  key ∈ removedKeys O block ∨ ∃ write ∈ logRows block, write.1 = key

theorem ownKey_of_mem_batchRows (h : write ∈ batchRows O block) : OwnKey O block write.1 := by
  rcases removed_or_logRow h with h | h
  · exact .inl h
  · exact .inr ⟨write, h, rfl⟩

theorem OwnKey.chainKey (h : OwnKey O block key) : ChainKey key := by
  rcases h with h | ⟨write, h, rfl⟩
  · exact chainKey_of_mem_removedKeys h
  · obtain ⟨location, hrow, -⟩ := logRow_of_mem h
    exact ⟨"log:index:".toList, by decide, hrow.isPrefix⟩

theorem not_logPrefix_of_mem_removedKeys (h : key ∈ removedKeys O block) :
    ¬"log:index:".toList <+: key := by
  have hfamily : InFamilies ["block:number:".toList, "header:number:".toList, "transaction:".toList,
      "receipt:".toList] key := by
    rcases mem_removedKeys.mp h with rfl | rfl | ⟨_, -, hash, -, rfl | rfl⟩
    all_goals exact ⟨_, by decide, List.prefix_append _ _⟩
  exact hfamily.not_isPrefix (by decide)

/-- A key of both blocks that is not one of their logs: they have their height or a transaction hash
in common. -/
theorem common_of_removedKeys {block' : Block} (h : key ∈ removedKeys O block)
    (h' : key ∈ removedKeys O block') :
    block.header.number = block'.header.number ∨
      ∃ t ∈ block.transactions, ∃ t' ∈ block'.transactions,
        ¬(hashesOf O t).Disjoint (hashesOf O t') := by
  rcases mem_removedKeys.mp h with rfl | rfl | ⟨t, ht, hash, hhash, hkey⟩
  · exact .inl (number_of_blockKey_mem h').symm
  · exact .inl (number_of_headerKey_mem h').symm
  · rcases mem_removedKeys.mp h' with rfl | rfl | ⟨t', ht', hash', hhash', hkey'⟩
    · exact absurd rfl ((inFamilies_of_hash hkey).ne_append (by decide) _)
    · exact absurd rfl ((inFamilies_of_hash hkey).ne_append (by decide) _)
    · obtain rfl := hash_inj hkey hkey'
      exact .inr ⟨t, ht, t', ht', fun hdisjoint => hdisjoint hhash hhash'⟩

/-- **Blocks at different heights without a common transaction hash have no key in common.** -/
theorem OwnKey.disjoint {block' : Block} (hnumber : block.header.number ≠ block'.header.number)
    (hhashes : ∀ t ∈ block.transactions, ∀ t' ∈ block'.transactions,
      (hashesOf O t).Disjoint (hashesOf O t')) (h : OwnKey O block key) : ¬OwnKey O block' key := by
  intro h'
  rcases h with h | ⟨write, hwrite, rfl⟩
  · rcases h' with h' | ⟨write', hwrite', rfl⟩
    · rcases common_of_removedKeys h h' with heq | ⟨t, ht, t', ht', hcommon⟩
      · exact hnumber heq
      · exact hcommon (hhashes t ht t' ht')
    · obtain ⟨location, hrow, -⟩ := logRow_of_mem hwrite'
      exact not_logPrefix_of_mem_removedKeys h hrow.isPrefix
  · obtain ⟨location, hrow, -, hlog⟩ := logRow_of_mem hwrite
    rcases h' with h' | ⟨write', hwrite', hkey⟩
    · exact not_logPrefix_of_mem_removedKeys h' hrow.isPrefix
    · obtain ⟨location', hrow', -, hlog'⟩ := logRow_of_mem hwrite'
      rw [hkey] at hrow'
      obtain rfl := hrow.unique hrow'
      exact hnumber (Except.ok.inj (hlog.symm.trans hlog'))

end Rows

end Blq
