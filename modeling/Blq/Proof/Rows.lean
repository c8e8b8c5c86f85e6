import Blq.Proof.Promotion
import Blq.Proof.RowKeys

/-!
# A published suffix leaves the rows of the new chain

A store that was built by inserting blocks holds the rows of its chain; publishing a suffix removes
the rows of the old one and writes those of the new one in a single batch. The same transaction may
be in both suffixes, and then its rows are removed and written again; the last write counts.

* `BuiltBy.chainRows`: what a store built by insertion holds.
* `publishCanonicalSuffix_eq_ok`: the batch as a removal followed by insertions.
* `published_rows_exact`: the rows afterwards are those of a store built from genesis.
-/

namespace Blq

open Word Result

namespace Rows

variable {O : Oracle} {rows rows' : Rows} {chain : List Block} {block : Block}
  {write : RowKey × RowValue} {number first : U64} {key : RowKey} {removed before after : List Block}

/-! ## Stores built by insertion -/

/-- The store was built by inserting the blocks of the chain. The rows of other families, such as
those of the accounts, are written by anyone. -/
inductive BuiltBy (O : Oracle) : List Block → Rows → Prop
  | empty : BuiltBy O [] ∅
  | insert {chain : List Block} {rows rows' : Rows} (block : Block) : BuiltBy O chain rows →
      insertBlock O rows block = .ok rows' → BuiltBy O (chain ++ [block]) rows'
  | write {chain : List Block} {rows : Rows} (key : RowKey) (value : RowValue) : BuiltBy O chain rows →
      ¬ChainKey key → key ≠ bestKey → BuiltBy O chain (rows.insert key value)
  | erase {chain : List Block} {rows : Rows} (key : RowKey) : BuiltBy O chain rows →
      ¬ChainKey key → key ≠ bestKey → BuiltBy O chain (rows.erase key)

/-- The numbers of the blocks are their places in the chain. -/
def Contiguous (chain : List Block) : Prop :=
  ∀ (i : ℕ) (block : Block), chain[i]? = some block → block.header.number.toNat = i

/-- No transaction hash or external hash occurs in two transactions of the chain. -/
def NoRepeats (O : Oracle) (chain : List Block) : Prop :=
  (chain.flatMap Block.transactions).Pairwise fun t t' => (hashesOf O t).Disjoint (hashesOf O t')

def chainRows (O : Oracle) (chain : List Block) : List (RowKey × RowValue) :=
  chain.flatMap (batchRows O)

theorem chainRows_append (chain chain' : List Block) :
    chainRows O (chain ++ chain') = chainRows O chain ++ chainRows O chain' :=
  List.flatMap_append

theorem inFamilies_of_mem (h : write ∈ transactionRows O block ++ logRows block) :
    InFamilies ["transaction:".toList, "receipt:".toList, "log:index:".toList] write.1 := by
  rcases List.mem_append.mp h with h | h
  · obtain ⟨_, -, hash, -, hkey⟩ := mem_transactionRows h
    obtain ⟨tag, hmem, hpre⟩ := inFamilies_of_hash hkey
    exact ⟨tag, List.mem_append_left ["log:index:".toList] hmem, hpre⟩
  · obtain ⟨location, hrow, -⟩ := logRow_of_mem h
    exact ⟨_, by decide, hrow.isPrefix⟩

theorem headerKey_not_mem (number : U64) (block : Block) :
    headerKey number ∉ (transactionRows O block ++ logRows block).map Prod.fst := by
  intro h
  obtain ⟨write, hwrite, hkey⟩ := List.mem_map.mp h
  exact (inFamilies_of_mem hwrite).ne_append (by decide) _ hkey

/-- **Insertion writes the rows of the batch, and the best height.** The header comes last there, but
no other row has its key. -/
theorem insertBlock_eq_ok : insertBlock O rows block = .ok rows' ↔ checkReceipts block = .ok () ∧
    rows' = (Map.putAll rows (batchRows O block)).insert bestKey
      (.bytes (beBytes block.header.number)) := by
  have hrows : Map.putAll rows ((blockKey block.header.number, .block block) ::
      (transactionRows O block ++ logRows block ++
        [(headerKey block.header.number, .header block.header),
          (bestKey, .bytes (beBytes block.header.number))])) =
      (Map.putAll rows (batchRows O block)).insert bestKey (.bytes (beBytes block.header.number)) := by
    rw [batchRows, Map.putAll_cons, Map.putAll_cons, Map.putAll_cons, Map.putAll_append,
      Map.putAll_insert_comm (headerKey_not_mem _ block)]
    rfl
  unfold insertBlock
  rw [hrows]
  constructor
  · intro h
    obtain ⟨_, hcheck, hpure⟩ := bind_eq_ok.mp h
    exact ⟨hcheck, (pure_eq_ok.mp hpure).symm⟩
  · rintro ⟨hcheck, rfl⟩
    rw [hcheck]
    rfl

theorem not_chainKey_bestKey : ¬ChainKey bestKey :=
  not_chainKey (show ∀ tag ∈ chainTags, Apart tag bestKey by decide) List.prefix_rfl

theorem not_accountKey_bestKey : ¬AccountKey bestKey :=
  (show Apart bestKey "account:".toList by decide).not_both List.prefix_rfl

/-- **What a store built by insertion holds**: in the families of the chain the rows of its blocks,
and the height of the last one. -/
structure Holds (O : Oracle) (chain : List Block) (rows : Rows) : Prop where
  indexed : ∀ key, ChainKey key → rows[key]? = (Map.putAll ∅ (chainRows O chain))[key]?
  best : rows[bestKey]? = chain.getLast?.map fun block => .bytes (beBytes block.header.number)
  receipts : ∀ block ∈ chain, checkReceipts block = .ok ()

theorem Holds.insert (h : Holds O chain rows) (hinsert : insertBlock O rows block = .ok rows') :
    Holds O (chain ++ [block]) rows' := by
  obtain ⟨hcheck, rfl⟩ := insertBlock_eq_ok.mp hinsert
  refine ⟨fun key hkey => ?_, ?_, fun b hb => ?_⟩
  · have hne : bestKey ≠ key := by
      rintro rfl
      exact not_chainKey_bestKey hkey
    have hone : chainRows O [block] = batchRows O block := by simp [chainRows]
    rw [Map.getElem?_insert_eq, if_neg hne, chainRows_append, Map.putAll_append, hone]
    exact Map.getElem?_putAll_congr (h.indexed key hkey) _
  · rw [Map.getElem?_insert_eq, if_pos rfl, List.getLast?_concat]
    rfl
  · rcases List.mem_append.mp hb with hb | hb
    · exact h.receipts b hb
    · obtain rfl := List.mem_singleton.mp hb
      exact hcheck

/-- The rows of the chain and of the tip are the same. -/
def SameChain (rows rows' : Rows) : Prop :=
  ∀ key, ChainKey key ∨ key = bestKey → rows'[key]? = rows[key]?

theorem sameChain_insert (hchain : ¬ChainKey key) (hbest : key ≠ bestKey) (value : RowValue) :
    SameChain rows (rows.insert key value) := by
  intro key' h
  rw [Map.getElem?_insert_eq, if_neg]
  rintro rfl
  exact h.elim hchain hbest

theorem sameChain_erase (hchain : ¬ChainKey key) (hbest : key ≠ bestKey) :
    SameChain rows (rows.erase key) := by
  intro key' h
  rw [Map.getElem?_erase_eq, if_neg]
  rintro rfl
  exact h.elim hchain hbest

theorem Holds.congr (h : Holds O chain rows) (hsame : SameChain rows rows') :
    Holds O chain rows' where
  indexed key hkey := (hsame key (.inl hkey)).trans (h.indexed key hkey)
  best := (hsame bestKey (.inr rfl)).trans h.best
  receipts := h.receipts

theorem BuiltBy.holds (h : BuiltBy O chain rows) : Holds O chain rows := by
  induction h with
  | empty => exact ⟨fun _ _ => rfl, Std.ExtTreeMap.getElem?_empty, by simp⟩
  | insert block _ hinsert ih => exact ih.insert hinsert
  | write key value _ hchain hbest ih =>
    exact ih.congr (sameChain_insert hchain hbest value)
  | erase key _ hchain hbest ih =>
    exact ih.congr (sameChain_erase hchain hbest)

theorem exists_built (h : ∀ block ∈ chain, checkReceipts block = .ok ()) :
    ∃ built, chain.foldlM (insertBlock O) ∅ = .ok built ∧ Holds O chain built ∧
      ∀ key, AccountKey key → built[key]? = none := by
  induction chain using List.reverseRecOn with
  | nil =>
    exact ⟨∅, rfl, BuiltBy.empty.holds, fun _ _ => Std.ExtTreeMap.getElem?_empty⟩
  | append_singleton chain block ih =>
    obtain ⟨built, hbuilt, hholds, hnone⟩ := ih fun b hb => h b (List.mem_append_left _ hb)
    have hcheck := h block (by simp)
    have hinsert : insertBlock O built block = .ok _ := insertBlock_eq_ok.mpr ⟨hcheck, rfl⟩
    refine ⟨_, ?_, hholds.insert hinsert, fun key hkey => ?_⟩
    · rw [List.foldlM_append, hbuilt, ok_bind, List.foldlM_cons, hinsert]
      rfl
    · rw [Map.getElem?_insert_eq, if_neg, Map.getElem?_putAll_of_not_mem, hnone key hkey]
      · intro hmem
        obtain ⟨write, hwrite, rfl⟩ := List.mem_map.mp hmem
        exact not_chainKey_of_accountKey hkey (chainKey_of_mem_batchRows hwrite)
      · rintro rfl
        exact not_accountKey_bestKey hkey

/-! ## Reading the rows of a chain -/

theorem mem_chainRows :
    write ∈ chainRows O chain ↔ ∃ block ∈ chain, write ∈ batchRows O block := List.mem_flatMap

theorem Contiguous.eq_of_number (h : Contiguous chain) {block' : Block} (hblock : block ∈ chain)
    (hblock' : block' ∈ chain) (hnumber : block.header.number = block'.header.number) :
    block = block' := by
  obtain ⟨i, hi⟩ := List.mem_iff_getElem?.mp hblock
  obtain ⟨j, hj⟩ := List.mem_iff_getElem?.mp hblock'
  obtain rfl : i = j := by rw [← h i block hi, ← h j block' hj, hnumber]
  exact Option.some.inj (hi.symm.trans hj)

theorem eq_of_blockKey (h : write ∈ batchRows O block) (hkey : write.1 = blockKey number) :
    block.header.number = number ∧ write.2 = .block block := by
  unfold batchRows at h
  rw [List.mem_cons, List.mem_cons] at h
  rcases h with rfl | rfl | h
  · exact ⟨blockKey_inj hkey, rfl⟩
  · exact absurd hkey.symm blockKey_ne_headerKey
  · exact absurd hkey ((inFamilies_of_mem h).ne_append (by decide) _)

theorem eq_of_headerKey (h : write ∈ batchRows O block) (hkey : write.1 = headerKey number) :
    block.header.number = number ∧ write.2 = .header block.header := by
  unfold batchRows at h
  rw [List.mem_cons, List.mem_cons] at h
  rcases h with rfl | rfl | h
  · exact absurd hkey blockKey_ne_headerKey
  · exact ⟨headerKey_inj hkey, rfl⟩
  · exact absurd (List.mem_map.mpr ⟨write, h, hkey⟩) (headerKey_not_mem number block)

theorem getElem?_blockKey (hchain : Contiguous chain) (hblock : block ∈ chain) :
    (Map.putAll ∅ (chainRows O chain))[blockKey block.header.number]? = some (.block block) := by
  refine Map.getElem?_putAll_of_forall ?_ (fun write hwrite hkey => ?_) ∅
  · exact List.mem_map.mpr ⟨_, mem_chainRows.mpr ⟨block, hblock, List.mem_cons_self⟩, rfl⟩
  · obtain ⟨block', hblock', hwrite⟩ := mem_chainRows.mp hwrite
    obtain ⟨hnumber, hvalue⟩ := eq_of_blockKey hwrite hkey
    rw [hvalue, hchain.eq_of_number hblock' hblock hnumber]

theorem getElem?_headerKey (hchain : Contiguous chain) (hblock : block ∈ chain) :
    (Map.putAll ∅ (chainRows O chain))[headerKey block.header.number]? =
      some (.header block.header) := by
  refine Map.getElem?_putAll_of_forall ?_ (fun write hwrite hkey => ?_) ∅
  · have hmem : (headerKey block.header.number, RowValue.header block.header) ∈ batchRows O block :=
      List.mem_cons_of_mem _ List.mem_cons_self
    exact List.mem_map.mpr ⟨_, mem_chainRows.mpr ⟨block, hblock, hmem⟩, rfl⟩
  · obtain ⟨block', hblock', hwrite⟩ := mem_chainRows.mp hwrite
    obtain ⟨hnumber, hvalue⟩ := eq_of_headerKey hwrite hkey
    rw [hvalue, hchain.eq_of_number hblock' hblock hnumber]

theorem getElem?_logRow (hblock : block ∈ chain) (hwrite : write ∈ logRows block) :
    (Map.putAll ∅ (chainRows O chain))[write.1]? = some write.2 := by
  obtain ⟨location, hrow, hvalue, -⟩ := logRow_of_mem hwrite
  refine Map.getElem?_putAll_of_forall ?_ (fun write' hwrite' hkey => ?_) ∅
  · refine List.mem_map.mpr ⟨write, mem_chainRows.mpr ⟨block, hblock, ?_⟩, rfl⟩
    exact List.mem_cons_of_mem _ (List.mem_cons_of_mem _ (List.mem_append_right _ hwrite))
  · obtain ⟨block', -, hwrite'⟩ := mem_chainRows.mp hwrite'
    rcases removed_or_logRow hwrite' with hremoved | hlog
    · rw [hkey] at hremoved
      exact absurd hrow.isPrefix (not_logPrefix_of_mem_removedKeys hremoved)
    · obtain ⟨location', hrow', hvalue', -⟩ := logRow_of_mem hlog
      rw [hkey] at hrow'
      rw [hvalue, hvalue', hrow.unique hrow']

/-! ## The batch -/

theorem removeBlocks_eq (removed : List Block) (batch : Batch RowKey RowValue) :
    removed.foldl (removeBlockFromBatch O) batch =
      Batch.removeAll batch (removed.flatMap (removedKeys O)) := by
  induction removed generalizing batch with
  | nil => rfl
  | cons block removed ih =>
    rw [List.foldl_cons, ih, List.flatMap_cons, Batch.removeAll_append]
    rfl

theorem mem_scanPrefix {tag : RowKey} {value : RowValue} :
    (key, value) ∈ scanPrefix rows tag ↔ tag <+: key ∧ rows[key]? = some value := by
  unfold scanPrefix
  simp only [List.mem_filter, Map.mem_toList_iff, List.isPrefixOf_iff_prefix]
  exact and_comm

def LogFrom (rows : Rows) (reorgFrom : U64) (key : RowKey) : Prop :=
  "log:index:".toList <+: key ∧ ∃ value number, rows[key]? = some value ∧
    logNumber value = .ok number ∧ reorgFrom.toNat ≤ number.toNat

theorem removeLogs_eq_ok {reorgFrom : U64} {batch batch' : Batch RowKey RowValue}
    (h : removeLogs rows reorgFrom batch = .ok batch') :
    ∃ keys, batch' = Batch.removeAll batch keys ∧ ∀ key, key ∈ keys ↔ LogFrom rows reorgFrom key := by
  have hloop : ∀ (l : List (RowKey × RowValue)) (batch : Batch RowKey RowValue),
      l.foldlM (fun batch (entry : RowKey × RowValue) => do
        let number ← logNumber entry.2
        pure (if number.toNat ≥ reorgFrom.toNat then Batch.remove batch entry.1 else batch)) batch =
        .ok batch' →
      ∃ keys, batch' = Batch.removeAll batch keys ∧ ∀ key, key ∈ keys ↔ ∃ entry ∈ l,
        key = entry.1 ∧ ∃ number, logNumber entry.2 = .ok number ∧ reorgFrom.toNat ≤ number.toNat := by
    intro l
    induction l with
    | nil =>
      intro batch hl
      obtain rfl := pure_eq_ok.mp hl
      exact ⟨[], rfl, by simp⟩
    | cons entry l ih =>
      intro batch hl
      rw [List.foldlM_cons, bind_eq_ok] at hl
      obtain ⟨next, hnext, hrest⟩ := hl
      obtain ⟨number, hnumber, hpure⟩ := bind_eq_ok.mp hnext
      obtain rfl := pure_eq_ok.mp hpure
      obtain ⟨keys, hkeys, hmem⟩ := ih _ hrest
      by_cases hfrom : number.toNat ≥ reorgFrom.toNat
      · rw [if_pos hfrom] at hkeys
        refine ⟨entry.1 :: keys, hkeys, fun key => ?_⟩
        rw [List.mem_cons, hmem, List.exists_mem_cons_iff]
        exact or_congr_left (and_iff_left ⟨number, hnumber, hfrom⟩).symm
      · rw [if_neg hfrom] at hkeys
        refine ⟨keys, hkeys, fun key => ?_⟩
        rw [hmem, List.exists_mem_cons_iff, or_iff_right]
        rintro ⟨-, n, hn, hle⟩
        obtain rfl := Except.ok.inj (hn.symm.trans hnumber)
        exact hfrom hle
  obtain ⟨keys, hkeys, hmem⟩ := hloop _ batch h
  refine ⟨keys, hkeys, fun key => (hmem key).trans ?_⟩
  constructor
  · rintro ⟨⟨_, value⟩, hentry, rfl, number, hnumber, hle⟩
    obtain ⟨hpre, hvalue⟩ := mem_scanPrefix.mp hentry
    exact ⟨hpre, value, number, hvalue, hnumber, hle⟩
  · rintro ⟨hpre, value, number, hvalue, hnumber, hle⟩
    exact ⟨(key, value), mem_scanPrefix.mpr ⟨hpre, hvalue⟩, rfl, number, hnumber, hle⟩

theorem mem_scanPrefix_keys {tag : RowKey} :
    key ∈ (scanPrefix rows tag).map Prod.fst ↔ tag <+: key ∧ ∃ value, rows[key]? = some value := by
  simp only [List.mem_map, Prod.exists, exists_and_right, exists_eq_right, mem_scanPrefix,
    exists_and_left]

/-- What a publication removes: the rows of the old blocks, the logs from a height on, the accounts
and the account snapshots. -/
def Removed (O : Oracle) (rows : Rows) (removed : List Block) (first : U64) (key : RowKey) : Prop :=
  (∃ block ∈ removed, key ∈ removedKeys O block) ∨ LogFrom rows first key ∨
    (AccountKey key ∨ "state:evm:snapshot:".toList <+: key) ∧ ∃ value, rows[key]? = some value

def cleared (rows : Rows) (keys : List RowKey) : Rows := Batch.apply (Batch.removeAll ∅ keys) rows

theorem getElem?_cleared (rows : Rows) (keys : List RowKey) (key : RowKey) :
    (cleared rows keys)[key]? = if key ∈ keys then none else rows[key]? :=
  Batch.getElem?_apply_removeAll rows keys key

theorem insertBlocks_eq_ok {replacement : List Block} {batch batch' : Batch RowKey RowValue}
    (h : replacement.foldlM (insertBlockIntoBatch O) batch = .ok batch') :
    (∀ block ∈ replacement, checkReceipts block = .ok ()) ∧
      batch' = Batch.putAll batch (chainRows O replacement) := by
  induction replacement generalizing batch with
  | nil =>
    obtain rfl := pure_eq_ok.mp h
    exact ⟨by simp, rfl⟩
  | cons block replacement ih =>
    rw [List.foldlM_cons, bind_eq_ok] at h
    obtain ⟨next, hnext, hrest⟩ := h
    obtain ⟨_, hcheck, hpure⟩ := bind_eq_ok.mp hnext
    obtain rfl := pure_eq_ok.mp hpure
    obtain ⟨hchecks, rfl⟩ := ih hrest
    refine ⟨List.forall_mem_cons.mpr ⟨hcheck, hchecks⟩, ?_⟩
    exact (Batch.putAll_append batch (batchRows O block) (chainRows O replacement)).symm

/-! ## Reading a store that was built -/

theorem getBestNumber_eq_ok (h : rows[bestKey]? = some (.bytes (beBytes number))) :
    getBestNumber rows = .ok number := by
  have hlength : (beBytes number).length = 8 := by simp [beBytes]
  unfold getBestNumber
  rw [h]
  dsimp only
  rw [if_pos hlength, ofBeBytes_beBytes rfl, ofNat_toNat]
  rfl

section Reading

variable (hholds : Holds O chain rows) (hchain : Contiguous chain)

include hholds hchain

theorem blockByNumber_eq (hblock : block ∈ chain) :
    blockByNumber rows block.header.number = .ok block := by
  unfold blockByNumber
  rw [hholds.indexed _ (chainKey_blockKey _), getElem?_blockKey hchain hblock]
  rfl

theorem bestHeader_eq {best : BlockHeader} (h : bestHeader rows = .ok best) :
    ∃ last, chain.getLast? = some last ∧ last.header = best := by
  obtain ⟨number, hnumber, hheader⟩ := bind_eq_ok.mp h
  cases hlast : chain.getLast? with
  | none =>
    unfold getBestNumber at hnumber
    rw [hholds.best, hlast] at hnumber
    exact absurd hnumber throw_ne_ok
  | some last =>
    rw [getBestNumber_eq_ok (by rw [hholds.best, hlast]; rfl)] at hnumber
    rw [← Except.ok.inj hnumber] at hheader
    unfold headerByNumber at hheader
    rw [hholds.indexed _ (chainKey_headerKey _),
      getElem?_headerKey hchain (List.mem_of_getLast? hlast)] at hheader
    exact ⟨last, rfl, pure_eq_ok.mp hheader⟩

theorem mem_removed {best : BlockHeader} (hbest : bestHeader rows = .ok best)
    (h : (SledStorage.heights first best.number).mapM (blockByNumber rows) = .ok removed) :
    block ∈ removed ↔ block ∈ chain.drop first.toNat := by
  obtain ⟨last, hlast, rfl⟩ := bestHeader_eq hholds hchain hbest
  have hend : last.header.number.toNat = chain.length - 1 := by
    rw [List.getLast?_eq_getElem?] at hlast
    exact hchain _ last hlast
  have hpos : 0 < chain.length := List.length_pos_of_mem (List.mem_of_getLast? hlast)
  constructor
  · intro hblock
    obtain ⟨k, hk, hread⟩ := mem_of_mapM_eq_ok h block hblock
    obtain ⟨hlow, hhigh⟩ := mem_heights.mp hk
    have hget : chain[k.toNat]? = some (chain[k.toNat]) := List.getElem?_eq_getElem (by omega)
    have hnumber : (chain[k.toNat]).header.number = k := BitVec.eq_of_toNat_eq (hchain _ _ hget)
    have hsame := blockByNumber_eq hholds hchain (List.mem_of_getElem? hget)
    rw [hnumber, hread] at hsame
    rw [Except.ok.inj hsame, List.mem_iff_getElem?]
    exact ⟨k.toNat - first.toNat, by rw [List.getElem?_drop, Nat.add_sub_cancel' hlow, hget]⟩
  · intro hblock
    obtain ⟨i, hi⟩ := List.mem_iff_getElem?.mp hblock
    rw [List.getElem?_drop] at hi
    have hnumber := hchain _ block hi
    have hbound : first.toNat + i < chain.length := (List.getElem?_eq_some_iff.mp hi).1
    obtain ⟨block', hmem, hread⟩ := forall_of_mapM_eq_ok h block.header.number
      (mem_heights.mpr ⟨by omega, by omega⟩)
    rw [blockByNumber_eq hholds hchain (List.mem_of_getElem? hi)] at hread
    rw [Except.ok.inj hread]
    exact hmem

end Reading

/-! ## Blocks of one chain -/

theorem Contiguous.lt_of_mem_left (h : Contiguous (before ++ after)) (hblock : block ∈ before) :
    block.header.number.toNat < before.length := by
  obtain ⟨i, hi⟩ := List.mem_iff_getElem?.mp hblock
  have hbound : i < before.length := (List.getElem?_eq_some_iff.mp hi).1
  rw [h i block (by rw [List.getElem?_append_left hbound, hi])]
  exact hbound

theorem Contiguous.le_of_mem_right (h : Contiguous (before ++ after)) (hblock : block ∈ after) :
    before.length ≤ block.header.number.toNat := by
  obtain ⟨j, hj⟩ := List.mem_iff_getElem?.mp hblock
  have hplace := h (before.length + j) block (by
    rw [List.getElem?_append_right (by omega), Nat.add_sub_cancel_left, hj])
  omega

theorem not_ownKey_of_append (hchain : Contiguous (before ++ after))
    (hrepeats : NoRepeats O (before ++ after)) {block' : Block} (hblock : block ∈ before)
    (hblock' : block' ∈ after) (h : OwnKey O block key) : ¬OwnKey O block' key := by
  refine h.disjoint ?_ fun t ht t' ht' => ?_
  · intro hnumber
    have hlt := hchain.lt_of_mem_left hblock
    have hle := hchain.le_of_mem_right hblock'
    rw [hnumber] at hlt
    omega
  · unfold NoRepeats at hrepeats
    rw [List.flatMap_append, List.pairwise_append] at hrepeats
    exact hrepeats.2.2 t (List.mem_flatMap.mpr ⟨block, hblock, ht⟩) t'
      (List.mem_flatMap.mpr ⟨block', hblock', ht'⟩)

section Publish

variable {previous : Option GenerationManifest} {ancestor : BlockHeader} {replacement : List Block}
  {native : NativeAccounts} {evm : EvmStateSnapshot} {totals : U64 × U128 × U128}
  {target : GenerationManifest}

theorem stateRows_not_mem (hkey : ChainKey key ∨ AccountKey key) :
    key ∉ (stateRows number evm totals).map Prod.fst := by
  intro hmem
  obtain ⟨write, hwrite, rfl⟩ := List.mem_map.mp hmem
  have hsplit : stateRows number evm totals = (stateRows number evm totals).dropLast ++
      [(bestKey, .bytes (beBytes number))] := rfl
  rw [hsplit] at hwrite
  rcases List.mem_append.mp hwrite with hstate | hbest
  · obtain ⟨hchain, haccount, -⟩ := stateRows_keys hstate
    rcases hkey with hkey | hkey
    · exact hchain hkey
    · exact haccount hkey
  · obtain rfl := List.mem_singleton.mp hbest
    rcases hkey with hkey | hkey
    · exact not_chainKey_bestKey hkey
    · exact not_accountKey_bestKey hkey

/-- **The batch is a removal followed by insertions.** -/
theorem publishCanonicalSuffix_eq_ok
    (h : publishCanonicalSuffix O rows previous ancestor replacement native evm totals target =
      .ok rows') :
    ∃ best removed tip keys, bestHeader rows = .ok best ∧
      ancestor.number.toNat ≤ best.number.toNat ∧
      (SledStorage.heights (saturatingAdd ancestor.number 1) best.number).mapM (blockByNumber rows) =
        .ok removed ∧
      SledStorage.checkContiguous O (SledStorage.notContiguous O) ancestor replacement = .ok () ∧
      replacement.getLast? = some tip ∧
      (∀ key, key ∈ keys ↔ Removed O rows removed (saturatingAdd ancestor.number 1) key) ∧
      (∀ block ∈ replacement, checkReceipts block = .ok ()) ∧
      rows' = Map.putAll (Map.putAll (Map.putAll (cleared rows keys) (chainRows O replacement))
        (accountRows native evm)) (stateRows tip.header.number evm totals) := by
  simp only [publishCanonicalSuffix, throw_bind, bind_eq_ok, ite_throw_eq_ok, not_or, not_not,
    pure_eq_ok, gt_iff_lt, not_lt] at h
  obtain ⟨-, best, hbest, hle, stored, hstored, hhash, _, hlinked, ⟨hne, -⟩, removed, hremoved,
    batch, hbatch, batch', hinsert, rfl⟩ := h
  obtain ⟨tip, htip⟩ : ∃ tip, replacement.getLast? = some tip := by
    cases hlast : replacement.getLast? with
    | none => exact absurd (List.isEmpty_iff.mpr (List.getLast?_eq_none_iff.mp hlast)) hne
    | some tip => exact ⟨tip, rfl⟩
  rw [removeBlocks_eq] at hbatch
  obtain ⟨logKeys, rfl, hlogs⟩ := removeLogs_eq_ok hbatch
  obtain ⟨hchecks, rfl⟩ := insertBlocks_eq_ok hinsert
  refine ⟨best, removed, tip, removed.flatMap (removedKeys O) ++ logKeys ++
    (scanPrefix rows "account:".toList).map Prod.fst ++
    (scanPrefix rows "state:evm:snapshot:".toList).map Prod.fst, hbest, hle, hremoved,
    by simpa [liftStorage, mapError_eq_ok] using hlinked, htip, fun key => ?_, hchecks, ?_⟩
  · rw [List.mem_append, List.mem_append, List.mem_append, List.mem_flatMap, hlogs,
      mem_scanPrefix_keys, mem_scanPrefix_keys, or_assoc, or_assoc, ← or_and_right]
    rfl
  · rw [cleared, Batch.apply_putAll, Batch.apply_putAll, Batch.apply_putAll, Batch.removeAll_append,
      Batch.removeAll_append, Batch.removeAll_append, htip]
    rfl

theorem removed_iff (hholds : Holds O (before ++ after) rows)
    (hchain : Contiguous (before ++ after)) (hrepeats : NoRepeats O (before ++ after))
    (hfirst : first.toNat = before.length) (hremoved : ∀ block, block ∈ removed ↔ block ∈ after)
    (hblock : block ∈ before ++ after) (hkey : OwnKey O block key) :
    Removed O rows removed first key ↔ block ∈ after := by
  have hchainKey := hkey.chainKey
  -- the value of a log row says which block it belongs to
  have hlog : LogFrom rows first key → key ∉ removedKeys O block →
      first.toNat ≤ block.header.number.toNat := by
    rintro ⟨-, value, number, hvalue, hnumber, hle⟩ hnot
    obtain ⟨write, hwrite, rfl⟩ := hkey.resolve_left hnot
    obtain ⟨location, -, hlocation, hplace⟩ := logRow_of_mem hwrite
    rw [hholds.indexed _ hchainKey, getElem?_logRow hblock hwrite, hlocation] at hvalue
    rw [← Option.some.inj hvalue, hplace] at hnumber
    rw [Except.ok.inj hnumber]
    exact hle
  constructor
  · intro h
    refine (List.mem_append.mp hblock).resolve_left fun hbefore => ?_
    rcases h with ⟨block', hblock', hmem⟩ | h | ⟨h | h, -⟩
    · exact not_ownKey_of_append hchain hrepeats hbefore ((hremoved block').mp hblock') hkey (.inl hmem)
    · have hnot : key ∉ removedKeys O block := fun hmem => not_logPrefix_of_mem_removedKeys hmem h.1
      have hle := hlog h hnot
      have hlt := hchain.lt_of_mem_left hbefore
      omega
    · exact not_chainKey_of_accountKey h hchainKey
    · exact not_chainKey (by decide) h hchainKey
  · intro hafter
    rcases hkey with hmem | ⟨write, hwrite, rfl⟩
    · exact .inl ⟨block, (hremoved block).mpr hafter, hmem⟩
    · obtain ⟨location, hrow, hlocation, hnumber⟩ := logRow_of_mem hwrite
      refine .inr (.inl ⟨hrow.isPrefix, .bytes location, _, ?_, hnumber, ?_⟩)
      · rw [hholds.indexed _ hchainKey, getElem?_logRow hblock hwrite, hlocation]
      · rw [hfirst]
        exact hchain.le_of_mem_right hafter

/-- **After the removal** the new rows stand as in a store that never had the old suffix, and the rows
below are as they were. -/
theorem after_removal (hholds : Holds O (before ++ after) rows)
    (hchain : Contiguous (before ++ after)) (hrepeats : NoRepeats O (before ++ after))
    (hfirst : first.toNat = before.length) (hremoved : ∀ block, block ∈ removed ↔ block ∈ after)
    {keys : List RowKey}
    (hkeys : ∀ key, key ∈ keys ↔ Removed O rows removed first key) :
    (∀ key, ChainKey key → ∀ new, (Map.putAll (cleared rows keys) (chainRows O new))[key]? =
        (Map.putAll ∅ (chainRows O (before ++ new)))[key]?) ∧
      ∀ block ∈ before, ∀ key, OwnKey O block key → (cleared rows keys)[key]? = rows[key]? := by
  have hstays : ∀ block ∈ before, ∀ key, OwnKey O block key → key ∉ keys := by
    intro block hblock key hkey hmem
    have hafter := (removed_iff hholds hchain hrepeats hfirst hremoved
      (List.mem_append_left _ hblock) hkey).mp ((hkeys key).mp hmem)
    have hlt := hchain.lt_of_mem_left hblock
    have hle := hchain.le_of_mem_right hafter
    omega
  refine ⟨fun key hkey new => ?_, fun block hblock key hkey => ?_⟩
  · have hbase : (cleared rows keys)[key]? = if key ∈ keys then none
        else (Map.putAll ∅ (chainRows O before ++ chainRows O after))[key]? := by
      rw [getElem?_cleared, hholds.indexed key hkey, chainRows_append]
    rw [chainRows_append]
    refine Map.getElem?_replaced hbase (fun hmem => ?_) fun hmem => ?_
    · obtain ⟨write, hwrite, rfl⟩ := List.mem_map.mp hmem
      obtain ⟨block, hblock, hwrite⟩ := mem_chainRows.mp hwrite
      exact (hkeys _).mpr ((removed_iff hholds hchain hrepeats hfirst hremoved
        (List.mem_append_right _ hblock) (ownKey_of_mem_batchRows hwrite)).mpr hblock)
    · obtain ⟨write, hwrite, rfl⟩ := List.mem_map.mp hmem
      obtain ⟨block, hblock, hwrite⟩ := mem_chainRows.mp hwrite
      exact hstays block hblock _ (ownKey_of_mem_batchRows hwrite)
  · rw [getElem?_cleared, if_neg (hstays block hblock key hkey)]

theorem getElem?_chainKey_putAll (hkey : ChainKey key) (m : Rows) (number : U64) :
    (Map.putAll (Map.putAll m (accountRows native evm)) (stateRows number evm totals))[key]? =
      m[key]? := by
  rw [Map.getElem?_putAll_of_not_mem fun hmem => stateRows_not_mem (.inl hkey) hmem,
    Map.getElem?_putAll_of_not_mem]
  intro hmem
  obtain ⟨write, hwrite, rfl⟩ := List.mem_map.mp hmem
  exact not_chainKey_of_accountKey (accountKey_of_mem_accountRows hwrite) hkey

/-- **Publishing a suffix leaves exactly the rows of the new chain**: in the families of the chain, of
the accounts and at the best height those of a store that was built by inserting the new chain from
genesis and writing the given accounts. No row of a block up to the ancestor has changed. -/
theorem published_rows_exact {old : List Block} (hbuilt : BuiltBy O old rows) (hold : Contiguous old)
    (hrepeats : NoRepeats O old)
    (hnew : Contiguous (old.take (ancestor.number.toNat + 1) ++ replacement))
    (hrepeats' : NoRepeats O (old.take (ancestor.number.toNat + 1) ++ replacement))
    (hpublish : publishCanonicalSuffix O rows previous ancestor replacement native evm totals target =
      .ok rows') :
    (∃ built, (old.take (ancestor.number.toNat + 1) ++ replacement).foldlM (insertBlock O) ∅ =
        .ok built ∧
      ∀ key, ChainKey key ∨ AccountKey key ∨ key = bestKey →
        rows'[key]? = (Map.putAll built (accountRows native evm))[key]?) ∧
    ∀ block ∈ old.take (ancestor.number.toNat + 1), ∀ key, OwnKey O block key →
      rows'[key]? = rows[key]? := by
  obtain ⟨best, removed, tip, keys, hbest, hle, hremoved, -, htip, hkeys, hchecks, rfl⟩ :=
    publishCanonicalSuffix_eq_ok hpublish
  have hholds := hbuilt.holds
  obtain ⟨last, hlast, rfl⟩ := bestHeader_eq hholds hold hbest
  -- the ancestor is in the chain, and there is a height above it
  have hlength : (old.take (ancestor.number.toNat + 1)).length = ancestor.number.toNat + 1 := by
    have hend := hold _ last (List.getLast?_eq_getElem? ▸ hlast)
    have hpos := List.length_pos_of_mem (List.mem_of_getLast? hlast)
    rw [List.length_take]
    omega
  have hfirst : (saturatingAdd ancestor.number 1).toNat = ancestor.number.toNat + 1 := by
    have htall := hnew.le_of_mem_right (List.mem_of_getLast? htip)
    have hbound := tip.header.number.isLt
    rw [toNat_saturatingAdd, show (1 : U64).toNat = 1 from rfl]
    omega
  have hmem : ∀ block, block ∈ removed ↔ block ∈ old.drop (ancestor.number.toNat + 1) := by
    intro block
    rw [mem_removed hholds hold hbest hremoved, hfirst]
  rw [← List.take_append_drop (ancestor.number.toNat + 1) old] at hholds hold hrepeats
  obtain ⟨hrows, hbelow⟩ :=
    after_removal hholds hold hrepeats (hfirst.trans hlength.symm) hmem hkeys
  have hreceipts : ∀ block ∈ old.take (ancestor.number.toNat + 1) ++ replacement,
      checkReceipts block = .ok () := by
    intro block hblock
    rcases List.mem_append.mp hblock with hblock | hblock
    · exact hholds.receipts block (List.mem_append_left _ hblock)
    · exact hchecks block hblock
  obtain ⟨built, hinserted, hbuilt', hnone⟩ := exists_built (O := O) hreceipts
  refine ⟨⟨built, hinserted, fun key hkey => ?_⟩, fun block hblock key hkey => ?_⟩
  · rcases hkey with hkey | hkey | rfl
    · rw [getElem?_chainKey_putAll hkey, hrows key hkey replacement, ← hbuilt'.indexed key hkey,
        Map.getElem?_putAll_of_not_mem]
      intro hwritten
      obtain ⟨write, hwrite, rfl⟩ := List.mem_map.mp hwritten
      exact not_chainKey_of_accountKey (accountKey_of_mem_accountRows hwrite) hkey
    · -- no account is left when the given ones are written
      rw [Map.getElem?_putAll_of_not_mem (stateRows_not_mem (.inr hkey))]
      refine Map.getElem?_putAll_congr ?_ _
      rw [hnone key hkey, Map.getElem?_putAll_of_not_mem, getElem?_cleared]
      · split
        · rfl
        · next hkept =>
          refine Option.eq_none_iff_forall_ne_some.mpr fun value hvalue => hkept ?_
          exact (hkeys key).mpr (.inr (.inr ⟨.inl hkey, value, hvalue⟩))
      · intro hwritten
        obtain ⟨write, hwrite, rfl⟩ := List.mem_map.mp hwritten
        obtain ⟨block, -, hwrite⟩ := mem_chainRows.mp hwrite
        exact not_chainKey_of_accountKey hkey (chainKey_of_mem_batchRows hwrite)
    · have hbest : (Map.putAll built (accountRows native evm))[bestKey]? = built[bestKey]? := by
        refine Map.getElem?_putAll_of_not_mem (fun hwritten => ?_) built
        obtain ⟨write, hwrite, hkey⟩ := List.mem_map.mp hwritten
        exact not_accountKey_bestKey (hkey ▸ accountKey_of_mem_accountRows hwrite)
      rw [hbest, hbuilt'.best, List.getLast?_append_of_ne_nil, htip]
      · exact (Map.getElem?_insert_eq _ _ _ _).trans (if_pos rfl)
      · rintro rfl
        exact absurd htip (by simp)
  · rw [getElem?_chainKey_putAll hkey.chainKey, Map.getElem?_putAll_of_not_mem,
      hbelow block hblock key hkey]
    intro hwritten
    obtain ⟨write, hwrite, rfl⟩ := List.mem_map.mp hwritten
    obtain ⟨block', hblock', hwrite⟩ := mem_chainRows.mp hwrite
    exact not_ownKey_of_append hnew hrepeats' hblock hblock' hkey (ownKey_of_mem_batchRows hwrite)

end Publish

/-! ## A transaction in both suffixes -/

theorem builtBy_of_foldlM {built : Rows} (h : chain.foldlM (insertBlock O) ∅ = .ok built) :
    BuiltBy O chain built := by
  induction chain using List.reverseRecOn generalizing built with
  | nil =>
    obtain rfl := pure_eq_ok.mp h
    exact .empty
  | append_singleton chain block ih =>
    rw [List.foldlM_append, bind_eq_ok] at h
    obtain ⟨rows, hrows, hlast⟩ := h
    rw [List.foldlM_cons, bind_eq_ok] at hlast
    obtain ⟨rows', hinsert, hpure⟩ := hlast
    obtain rfl := pure_eq_ok.mp hpure
    exact (ih hrows).insert block hinsert

def relayedTransaction : Transaction where
  chainId := 1
  transactionType := 2
  nonce := 0
  from_ := 7
  to_ := some 8
  value := 5
  gasLimit := 21000
  maxFeePerGas := 1
  maxPriorityFeePerGas := 0
  payload := []
  accessList := []
  signature := none
  externalHash := some 99

def relayBlock (parentHash : Hash256) (number nonce : U64) : Block where
  header := (emptyBlock parentHash number 0 nonce).header
  transactions := [relayedTransaction]
  receipts := [{
    transactionHash := 0
    success := true
    gasUsed := 21000
    logsRoot := 0
    logs := [{ address := 8, topics := [4], data := [] }] }]

def relayChain : List Block := [emptyBlock 0 0 0 0, relayBlock 0 1 1]

def relaySuffix : List Block := [relayBlock 0 1 2, emptyBlock 2 2 0 3]

def relayManifest : GenerationManifest where
  generationId := 1
  status := .active
  canonicalHeight := 2
  canonicalHash := 3
  stateRoot := 0
  profileFingerprint := ""
  finalizedHeight := 0
  replayCheckpoint := some 2

def publishedRows (chain replacement : List Block) (ancestor : BlockHeader) : Except NodeError Rows := do
  let rows ← chain.foldlM (insertBlock nonceOracle) ∅
  publishCanonicalSuffix nonceOracle rows (some relayManifest) ancestor replacement ∅ ∅ (0, 0, 0)
    relayManifest

theorem published_rows_exact_relaySuffix : ∃ rows rows',
    relayChain.foldlM (insertBlock nonceOracle) ∅ = .ok rows ∧
    publishCanonicalSuffix nonceOracle rows (some relayManifest) (emptyBlock 0 0 0 0).header relaySuffix
      ∅ ∅ (0, 0, 0) relayManifest = .ok rows' ∧
    ∃ built, (relayChain.take 1 ++ relaySuffix).foldlM (insertBlock nonceOracle) ∅ = .ok built ∧
      ∀ key, ChainKey key ∨ AccountKey key ∨ key = bestKey →
        rows'[key]? = (Map.putAll built (accountRows ∅ ∅))[key]? := by
  obtain ⟨rows', hpublished⟩ : ∃ rows', publishedRows relayChain relaySuffix
      (emptyBlock 0 0 0 0).header = .ok rows' := exists_ok_of_isOk (by decide +kernel)
  obtain ⟨rows, hrows, hpublish⟩ := bind_eq_ok.mp hpublished
  have hplaces : ∀ chain : List Block, (∀ i : Fin chain.length, chain[i].header.number.toNat = i) →
      Contiguous chain := by
    intro chain hall i block hblock
    obtain ⟨hbound, rfl⟩ := List.getElem?_eq_some_iff.mp hblock
    exact hall ⟨i, hbound⟩
  have hnew : Contiguous (relayChain.take 1 ++ relaySuffix) := hplaces _ (by decide +kernel)
  have hrepeats : NoRepeats nonceOracle (relayChain.take 1 ++ relaySuffix) :=
    List.pairwise_singleton _ relayedTransaction
  obtain ⟨hbuilt, -⟩ := published_rows_exact (builtBy_of_foldlM hrows) (hplaces _ (by decide +kernel))
    (List.pairwise_singleton _ _) hnew hrepeats hpublish
  exact ⟨rows, rows', hrows, hpublish, hbuilt⟩

end Rows

end Blq
