import Blq.Proof.Rows

/-!
# What a database holds

The invariant behind the queries: bodies and headers lie under their own numbers, a body has its
header beside it, and for every log of a body the rows of the index are there. Publishing a suffix
and removing bodies take index rows away, and do so only for bodies that go with them.

* `IndexedRows`: the invariant on the families of the chain.
* `IndexedRows.put`, `IndexedRows.remove`: writing a block keeps it, and so does a removal that takes
  a body along with its header or its index rows.
* `Store`, `Store.sound`: **the invariant holds in every database that insertions, publications and
  removals of bodies lead to.**
-/

namespace Blq

namespace Rows

open Word Result

variable {O : Oracle} {rows rows' : Rows} {block : Block} {best first : U64} {removed : List Block}

/-! ## One block -/

variable {key : RowKey} {number : U64} {header : BlockHeader}

section Put

variable (m : Rows) (block : Block)

theorem getElem?_blockKey_put (number : U64) :
    (Map.putAll m (batchRows O block))[blockKey number]? =
      if block.header.number = number then some (.block block) else m[blockKey number]? := by
  split_ifs with hnumber
  · refine Map.getElem?_putAll_of_forall ?_ (fun write hwrite hkey => ?_) m
    · exact List.mem_map.mpr ⟨_, List.mem_cons_self, by rw [hnumber]⟩
    · exact (eq_of_blockKey hwrite hkey).2
  · refine Map.getElem?_putAll_of_not_mem (fun hmem => hnumber ?_) m
    obtain ⟨write, hwrite, hkey⟩ := List.mem_map.mp hmem
    exact (eq_of_blockKey hwrite hkey).1

theorem getElem?_headerKey_put (number : U64) :
    (Map.putAll m (batchRows O block))[headerKey number]? =
      if block.header.number = number then some (.header block.header) else m[headerKey number]? := by
  split_ifs with hnumber
  · refine Map.getElem?_putAll_of_forall ?_ (fun write hwrite hkey => ?_) m
    · exact List.mem_map.mpr ⟨_, List.mem_cons_of_mem _ List.mem_cons_self, by rw [hnumber]⟩
    · exact (eq_of_headerKey hwrite hkey).2
  · refine Map.getElem?_putAll_of_not_mem (fun hmem => hnumber ?_) m
    obtain ⟨write, hwrite, hkey⟩ := List.mem_map.mp hmem
    exact (eq_of_headerKey hwrite hkey).1

variable {m block} {write : RowKey × RowValue}

theorem mem_batchRows_of_logRows (h : write ∈ logRows block) : write ∈ batchRows O block :=
  List.mem_cons_of_mem _ (List.mem_cons_of_mem _ (List.mem_append_right _ h))

theorem mem_logRows_of_mem_batchRows (h : write ∈ batchRows O block)
    (hlog : "log:index:".toList <+: write.1) : write ∈ logRows block :=
  (removed_or_logRow h).resolve_left fun hmem => not_logPrefix_of_mem_removedKeys hmem hlog

theorem getElem?_ownLog_put (h : write ∈ logRows block) :
    (Map.putAll m (batchRows O block))[write.1]? = some write.2 := by
  obtain ⟨location, hrow, hvalue, -⟩ := logRow_of_mem h
  refine Map.getElem?_putAll_of_forall ?_ (fun write' hwrite' hkey => ?_) m
  · exact List.mem_map_of_mem (mem_batchRows_of_logRows h)
  · have hlog := mem_logRows_of_mem_batchRows hwrite' (hkey ▸ hrow.isPrefix)
    obtain ⟨location', hrow', hvalue', -⟩ := logRow_of_mem hlog
    rw [hkey] at hrow'
    rw [hvalue, hvalue', hrow.unique hrow']

theorem getElem?_otherLog_put {location : Bytes} (hrow : LogRow key location)
    (h : m[key]? = some (.bytes location)) :
    (Map.putAll m (batchRows O block))[key]? = some (.bytes location) := by
  by_cases hmem : key ∈ (batchRows O block).map Prod.fst
  · obtain ⟨write, hwrite, rfl⟩ := List.mem_map.mp hmem
    have hlog := mem_logRows_of_mem_batchRows hwrite hrow.isPrefix
    obtain ⟨location', hrow', hvalue', -⟩ := logRow_of_mem hlog
    rw [getElem?_ownLog_put hlog, hvalue', hrow.unique hrow']
  · rw [Map.getElem?_putAll_of_not_mem hmem, h]

end Put

/-! ## The invariant -/

/-- **Bodies, headers and the index of the logs belong together.** -/
structure IndexedRows (rows : Rows) : Prop where
  body : ∀ number value, rows[blockKey number]? = some value →
    ∃ block, value = .block block ∧ block.header.number = number
  header : ∀ key value, "header:number:".toList <+: key → rows[key]? = some value →
    ∃ header, value = .header header ∧ key = headerKey header.number
  bodyHeader : ∀ number block, rows[blockKey number]? = some (.block block) →
    rows[headerKey number]? = some (.header block.header)
  logRow : ∀ key value, "log:index:".toList <+: key → rows[key]? = some value →
    ∃ location number, LogRow key location ∧ value = .bytes location ∧
      logNumber (.bytes location) = .ok number
  indexed : ∀ number block, rows[blockKey number]? = some (.block block) →
    ∀ write ∈ logRows block, rows[write.1]? = some write.2

theorem IndexedRows.empty : IndexedRows ∅ := by
  refine ⟨?_, ?_, ?_, ?_, ?_⟩ <;> simp

theorem IndexedRows.put (h : IndexedRows rows) (block : Block) :
    IndexedRows (Map.putAll rows (batchRows O block)) := by
  refine ⟨fun number value hvalue => ?_, fun key value hkey hvalue => ?_,
    fun number block' hblock' => ?_, fun key value hkey hvalue => ?_,
    fun number block' hblock' write hwrite => ?_⟩
  · rw [getElem?_blockKey_put] at hvalue
    split_ifs at hvalue with hnumber
    · exact ⟨block, (Option.some.inj hvalue).symm, hnumber⟩
    · exact h.body number value hvalue
  · by_cases hmem : key ∈ (batchRows O block).map Prod.fst
    · obtain ⟨write, hwrite, rfl⟩ := List.mem_map.mp hmem
      -- of the rows of a block only the header's lies in this family
      have hown : write.1 = headerKey block.header.number := by
        rcases List.mem_cons.mp hwrite with rfl | hwrite
        · exact absurd hkey ((show Apart "block:number:".toList "header:number:".toList by
            decide).not_both (List.prefix_append _ _))
        · rcases List.mem_cons.mp hwrite with rfl | hwrite
          · rfl
          · exact absurd hkey ((inFamilies_of_mem hwrite).not_isPrefix (by decide))
      rw [hown, getElem?_headerKey_put, if_pos rfl] at hvalue
      exact ⟨block.header, (Option.some.inj hvalue).symm, hown⟩
    · rw [Map.getElem?_putAll_of_not_mem hmem] at hvalue
      exact h.header key value hkey hvalue
  · rw [getElem?_blockKey_put] at hblock'
    rw [getElem?_headerKey_put]
    split_ifs at hblock' ⊢ with hnumber
    · obtain ⟨⟩ := hblock'
      rfl
    · exact h.bodyHeader number block' hblock'
  · by_cases hmem : key ∈ (batchRows O block).map Prod.fst
    · obtain ⟨write, hwrite, rfl⟩ := List.mem_map.mp hmem
      have hlog := mem_logRows_of_mem_batchRows hwrite hkey
      obtain ⟨location, hrow, hlocation, hnumber⟩ := logRow_of_mem hlog
      rw [getElem?_ownLog_put hlog, hlocation] at hvalue
      exact ⟨location, _, hrow, (Option.some.inj hvalue).symm, hnumber⟩
    · rw [Map.getElem?_putAll_of_not_mem hmem] at hvalue
      exact h.logRow key value hkey hvalue
  · rw [getElem?_blockKey_put] at hblock'
    split_ifs at hblock' with hnumber
    · obtain ⟨⟩ := hblock'
      exact getElem?_ownLog_put hwrite
    · obtain ⟨location, hrow, hlocation, -⟩ := logRow_of_mem hwrite
      have hold := h.indexed number block' hblock' write hwrite
      rw [hlocation] at hold ⊢
      exact getElem?_otherLog_put hrow hold

theorem IndexedRows.putChain (h : IndexedRows rows) (blocks : List Block) :
    IndexedRows (Map.putAll rows (chainRows O blocks)) := by
  induction blocks generalizing rows with
  | nil => exact h
  | cons block blocks ih =>
    have hsplit : chainRows O (block :: blocks) = batchRows O block ++ chainRows O blocks := by
      simp [chainRows]
    rw [hsplit, Map.putAll_append]
    exact ih (h.put block)

theorem IndexedRows.remove (h : IndexedRows rows)
    (hsub : ∀ key value, ChainKey key → rows'[key]? = some value → rows[key]? = some value)
    (hkept : ∀ number block, rows'[blockKey number]? = some (.block block) →
      rows'[headerKey number]? = rows[headerKey number]? ∧
        ∀ write ∈ logRows block, rows'[write.1]? = rows[write.1]?) : IndexedRows rows' := by
  have hbody : ∀ number block, rows'[blockKey number]? = some (.block block) →
      rows[blockKey number]? = some (.block block) :=
    fun number block hblock => hsub _ _ (chainKey_blockKey number) hblock
  refine ⟨fun number value hvalue => ?_, fun key value hkey hvalue => ?_,
    fun number block hblock => ?_, fun key value hkey hvalue => ?_,
    fun number block hblock write hwrite => ?_⟩
  · exact h.body number value (hsub _ _ (chainKey_blockKey number) hvalue)
  · exact h.header key value hkey (hsub _ _ ⟨_, by decide, hkey⟩ hvalue)
  · rw [(hkept number block hblock).1]
    exact h.bodyHeader number block (hbody number block hblock)
  · exact h.logRow key value hkey (hsub _ _ ⟨_, by decide, hkey⟩ hvalue)
  · rw [(hkept number block hblock).2 write hwrite]
    exact h.indexed number block (hbody number block hblock) write hwrite

theorem IndexedRows.congr (h : IndexedRows rows) (hsame : ∀ key, ChainKey key → rows'[key]? = rows[key]?) :
    IndexedRows rows' := by
  refine h.remove (fun key value hkey hvalue => hsame key hkey ▸ hvalue) fun number block _ => ?_
  refine ⟨hsame _ (chainKey_headerKey number), fun write hwrite => hsame _ ?_⟩
  exact chainKey_of_mem_batchRows (O := zeroOracle) (mem_batchRows_of_logRows hwrite)

/-! ## Reading -/

theorem blockByNumber_eq_ok :
    blockByNumber rows number = .ok block ↔ rows[blockKey number]? = some (.block block) := by
  unfold blockByNumber
  split <;> simp_all [invalidValue, throw_ne_ok, pure_eq_ok]

theorem headerByNumber_eq_ok :
    headerByNumber rows number = .ok header ↔ rows[headerKey number]? = some (.header header) := by
  unfold headerByNumber
  split <;> simp_all [invalidValue, throw_ne_ok, pure_eq_ok]

theorem IndexedRows.number_of_block (h : IndexedRows rows)
    (hread : blockByNumber rows number = .ok block) : block.header.number = number := by
  obtain ⟨block', hvalue, hnumber⟩ := h.body number _ (blockByNumber_eq_ok.mp hread)
  obtain ⟨⟩ := hvalue
  exact hnumber

theorem IndexedRows.number_of_header (h : IndexedRows rows)
    (hread : headerByNumber rows number = .ok header) : header.number = number := by
  obtain ⟨header', hvalue, hkey⟩ := h.header _ _ (List.prefix_append _ _)
    (headerByNumber_eq_ok.mp hread)
  obtain ⟨⟩ := hvalue
  exact (headerKey_inj hkey).symm

def HeadersBelow (rows : Rows) : Prop :=
  ∀ number header, rows[headerKey number]? = some (.header header) →
    ∃ best, getBestNumber rows = .ok best ∧ number.toNat ≤ best.toNat

theorem HeadersBelow.congr (h : HeadersBelow rows)
    (hheader : ∀ number, rows'[headerKey number]? = rows[headerKey number]?)
    (hbest : rows'[bestKey]? = rows[bestKey]?) : HeadersBelow rows' := by
  intro number header hrow
  rw [hheader] at hrow
  obtain ⟨best, hnumber, hle⟩ := h number header hrow
  refine ⟨best, ?_, hle⟩
  unfold getBestNumber at hnumber ⊢
  rwa [hbest]

/-- A database whose rows belong together, up to its tip. -/
structure SoundRows (rows : Rows) : Prop where
  index : IndexedRows rows
  below : HeadersBelow rows

theorem SoundRows.body_le (h : SoundRows rows)
    (hbody : rows[blockKey number]? = some (.block block)) (hbest : getBestNumber rows = .ok best) :
    number.toNat ≤ best.toNat := by
  obtain ⟨best', hbest', hle⟩ := h.below number _ (h.index.bodyHeader number block hbody)
  rw [hbest] at hbest'
  rwa [Except.ok.inj hbest']

theorem SoundRows.insert (h : SoundRows rows)
    (htip : ∀ best, getBestNumber rows = .ok best → best.toNat ≤ block.header.number.toNat)
    (hinsert : insertBlock O rows block = .ok rows') : SoundRows rows' := by
  obtain ⟨-, rfl⟩ := insertBlock_eq_ok.mp hinsert
  have hchain : ∀ key, ChainKey key → ((Map.putAll rows (batchRows O block)).insert bestKey
      (.bytes (beBytes block.header.number)))[key]? = (Map.putAll rows (batchRows O block))[key]? := by
    intro key hkey
    rw [Map.getElem?_insert_eq, if_neg]
    rintro rfl
    exact not_chainKey_bestKey hkey
  refine ⟨(h.index.put block).congr hchain, fun number header hheader => ?_⟩
  refine ⟨block.header.number, getBestNumber_eq_ok (by rw [Map.getElem?_insert_eq, if_pos rfl]), ?_⟩
  rw [hchain _ (chainKey_headerKey number), getElem?_headerKey_put] at hheader
  split_ifs at hheader with hnumber
  · rw [hnumber]
  · obtain ⟨best, hbest, hle⟩ := h.below number header hheader
    exact hle.trans (htip best hbest)

/-! ## Publishing a suffix -/

section Publish

variable {previous : Option GenerationManifest} {ancestor : BlockHeader} {replacement : List Block}
  {native : NativeAccounts} {evm : EvmStateSnapshot} {totals : U64 × U128 × U128}
  {target : GenerationManifest}

theorem numbers_of_contiguous {ε : Type} {err : BlockHeader → BlockHeader → ε} {parent : BlockHeader}
    (h : SledStorage.checkContiguous O err parent replacement = .ok ()) {tip : Block}
    (htip : replacement.getLast? = some tip) :
    ∀ block ∈ replacement, (saturatingAdd parent.number 1).toNat ≤ block.header.number.toNat ∧
      block.header.number.toNat ≤ tip.header.number.toNat := by
  intro block hblock
  obtain ⟨i, hi⟩ := List.mem_iff_getElem?.mp hblock
  have hlt := (List.getElem?_eq_some_iff.mp hi).1
  rw [List.getLast?_eq_getElem?] at htip
  rw [toNat_saturatingAdd_one, number_of_contiguous h hi, number_of_contiguous h htip]
  omega

theorem not_stateKey_of_chainKey (h : ChainKey key) :
    ¬(AccountKey key ∨ "state:evm:snapshot:".toList <+: key) := by
  rintro (haccount | hsnapshot)
  · exact not_chainKey_of_accountKey haccount h
  · exact not_chainKey (by decide) hsnapshot h

theorem not_removed_headerKey
    (hheights : ∀ block ∈ removed, first.toNat ≤ block.header.number.toNat)
    (hlow : number.toNat < first.toNat) : ¬Removed O rows removed first (headerKey number) := by
  rintro (⟨block, hblock, hown⟩ | hlog | ⟨hstate, -⟩)
  · have hfrom := hheights block hblock
    rw [number_of_headerKey_mem hown] at hfrom
    omega
  · exact (show Apart "log:index:".toList "header:number:".toList by decide).not_both hlog.1
      (List.prefix_append _ _)
  · exact not_stateKey_of_chainKey (chainKey_headerKey number) hstate

theorem IndexedRows.le_of_mem (h : IndexedRows rows)
    (hremoved : (SledStorage.heights first best).mapM (blockByNumber rows) = .ok removed) :
    ∀ block ∈ removed, first.toNat ≤ block.header.number.toNat := by
  intro block hblock
  obtain ⟨number, hmem, hread⟩ := mem_of_mapM_eq_ok hremoved block hblock
  rw [h.number_of_block hread]
  exact (mem_heights.mp hmem).1

theorem getElem?_headerKey_putChain {m : Rows}
    (h : (Map.putAll m (chainRows O replacement))[headerKey number]? = some (.header header)) :
    (∃ block ∈ replacement, block.header.number = number) ∨
      m[headerKey number]? = some (.header header) := by
  by_cases hmem : headerKey number ∈ (chainRows O replacement).map Prod.fst
  · obtain ⟨write, hwrite, hkey⟩ := List.mem_map.mp hmem
    obtain ⟨block, hblock, hwrite⟩ := mem_chainRows.mp hwrite
    exact .inl ⟨block, hblock, (eq_of_headerKey hwrite hkey).1⟩
  · rw [Map.getElem?_putAll_of_not_mem hmem] at h
    exact .inr h

theorem getElem?_bestKey_stateRows {m : Rows} :
    (Map.putAll m (stateRows number evm totals))[bestKey]? = some (.bytes (beBytes number)) := by
  have hsplit : stateRows number evm totals = (stateRows number evm totals).dropLast ++
      [(bestKey, .bytes (beBytes number))] := rfl
  rw [hsplit, Map.putAll_append, Map.putAll_cons, Map.putAll_nil, Map.getElem?_insert_eq, if_pos rfl]

/-- **What a publication removes.** The index rows go from the first replaced height on, and no body
or header from there on stays. -/
theorem SoundRows.removal (h : SoundRows rows)
    {keys : List RowKey} (hbest : getBestNumber rows = .ok best)
    (hremoved : (SledStorage.heights first best).mapM (blockByNumber rows) = .ok removed)
    (hkeys : ∀ key, key ∈ keys ↔ Removed O rows removed first key) :
    IndexedRows (cleared rows keys) ∧
      ∀ number header, (cleared rows keys)[headerKey number]? = some (.header header) →
        number.toNat < first.toNat := by
  have hgone : ∀ number : U64, first.toNat ≤ number.toNat → number.toNat ≤ best.toNat →
      blockKey number ∈ keys ∧ headerKey number ∈ keys := by
    intro number hfrom hto
    obtain ⟨block, hblock, hread⟩ := forall_of_mapM_eq_ok hremoved number
      (mem_heights.mpr ⟨hfrom, hto⟩)
    have hnumber := h.index.number_of_block hread
    refine ⟨(hkeys _).mpr (.inl ⟨block, hblock, ?_⟩), (hkeys _).mpr (.inl ⟨block, hblock, ?_⟩)⟩
    · exact mem_removedKeys.mpr (.inl (by rw [hnumber]))
    · exact mem_removedKeys.mpr (.inr (.inl (by rw [hnumber])))
  refine ⟨h.index.remove (fun key value hkey hvalue => ?_) fun number block hblock => ?_,
    fun number header hheader => ?_⟩
  · rw [getElem?_cleared] at hvalue
    split_ifs at hvalue
    exact hvalue
  · rw [getElem?_cleared] at hblock
    split_ifs at hblock with hmem
    have hlow : number.toNat < first.toNat := by
      have hto := h.body_le hblock hbest
      by_contra hfrom
      exact hmem (hgone number (by omega) hto).1
    refine ⟨?_, fun write hwrite => ?_⟩
    · rw [getElem?_cleared, if_neg]
      exact fun hmem => not_removed_headerKey (h.index.le_of_mem hremoved) hlow ((hkeys _).mp hmem)
    · rw [getElem?_cleared, if_neg]
      intro hmemLog
      obtain ⟨location, hrow, hlocation, hlogNumber⟩ := logRow_of_mem hwrite
      rcases (hkeys _).mp hmemLog with ⟨block', hblock', hown⟩ | ⟨-, value, number', hvalue, hread, hfrom⟩ |
        ⟨hstate, -⟩
      · exact not_logPrefix_of_mem_removedKeys hown hrow.isPrefix
      · -- the row says the number of its block, which is below the replaced heights
        rw [h.index.indexed number block hblock write hwrite, hlocation] at hvalue
        rw [← Option.some.inj hvalue, hlogNumber] at hread
        have hnumber := h.index.number_of_block (blockByNumber_eq_ok.mpr hblock)
        rw [← Except.ok.inj hread, hnumber] at hfrom
        omega
      · exact not_stateKey_of_chainKey ⟨_, by decide, hrow.isPrefix⟩ hstate
  · rw [getElem?_cleared] at hheader
    split_ifs at hheader with hmem
    obtain ⟨best', hbest', hto⟩ := h.below number header hheader
    rw [hbest] at hbest'
    obtain rfl := Except.ok.inj hbest'
    by_contra hfrom
    exact hmem (hgone number (by omega) hto).2

/-- **A publication keeps the invariant.** -/
theorem SoundRows.publish (h : SoundRows rows)
    (hpublish : publishCanonicalSuffix O rows previous ancestor replacement native evm totals target =
      .ok rows') : SoundRows rows' := by
  obtain ⟨best, removed, tip, keys, hbest, hle, hremoved, hcontiguous, htip, hkeys, -, rfl⟩ :=
    publishCanonicalSuffix_eq_ok hpublish
  obtain ⟨bestNumber, hbestNumber, hbestHeader⟩ := bind_eq_ok.mp hbest
  rw [h.index.number_of_header hbestHeader] at hremoved
  obtain ⟨hindex, hbelow⟩ := h.removal hbestNumber hremoved hkeys
  have hchain : ∀ key, ChainKey key →
      (Map.putAll (Map.putAll (Map.putAll (cleared rows keys) (chainRows O replacement))
        (accountRows native evm)) (stateRows tip.header.number evm totals))[key]? =
      (Map.putAll (cleared rows keys) (chainRows O replacement))[key]? :=
    fun key hkey => getElem?_chainKey_putAll hkey _ _
  refine ⟨(hindex.putChain replacement).congr hchain, fun number header hheader => ?_⟩
  refine ⟨tip.header.number, getBestNumber_eq_ok getElem?_bestKey_stateRows, ?_⟩
  have hnumbers := numbers_of_contiguous hcontiguous htip
  rw [hchain _ (chainKey_headerKey number)] at hheader
  rcases getElem?_headerKey_putChain hheader with ⟨block, hblock, hnumber⟩ | hold
  · rw [← hnumber]
    exact (hnumbers block hblock).2
  · have hlow := hbelow number header hold
    have hlast := (hnumbers tip (List.mem_of_getLast? htip)).1
    omega

end Publish

/-! ## Removing bodies -/

theorem getElem?_removeBody (rows : Rows) (number : U64) (block : Block) (key : RowKey) :
    (removeBody O rows number block)[key]? = none ∧
        (("log:index:".toList <+: key ∧
          ∃ value, rows[key]? = some value ∧ logNumber value = .ok number) ∨
          key ∈ bodyKeys O number block) ∨
      (removeBody O rows number block)[key]? = rows[key]? := by
  unfold removeBody removeLogIndexesForBlock
  rw [Map.getElem?_foldl_erase]
  by_cases hbody : key ∈ bodyKeys O number block
  · rw [if_pos hbody]
    exact .inl ⟨rfl, .inr hbody⟩
  rw [if_neg hbody]
  have hfold : ∀ (entries : List (RowKey × RowValue)) (m : Rows),
      entries.foldl (fun rows entry => rows.erase entry.1) m =
        (entries.map Prod.fst).foldl (fun rows key => rows.erase key) m :=
    fun entries m => List.foldl_map.symm
  rw [hfold, Map.getElem?_foldl_erase]
  split_ifs with hlog
  · obtain ⟨⟨key', value⟩, hentry, rfl⟩ := List.mem_map.mp hlog
    obtain ⟨hscan, hnumber⟩ := List.mem_filter.mp hentry
    obtain ⟨hlogs, hrow⟩ := mem_scanPrefix.mp hscan
    have hsome : (logNumber value).toOption = some number := by simpa using hnumber
    exact .inl ⟨rfl, .inl ⟨hlogs, value, hrow, toOption_eq_some.mp hsome⟩⟩
  · exact .inr rfl

theorem getElem?_removeBody_body (number : U64) :
    (removeBody O rows number block)[blockKey number]? = none := by
  unfold removeBody
  have hmem : blockKey number ∈ bodyKeys O number block := List.mem_cons_self
  rw [Map.getElem?_foldl_erase, if_pos hmem]

theorem inFamilies_of_mem_bodyKeys (h : key ∈ bodyKeys O number block) :
    InFamilies ["block:number:".toList, "transaction:".toList, "receipt:".toList] key := by
  rcases List.mem_cons.mp h with rfl | h
  · exact ⟨_, by decide, List.prefix_append _ _⟩
  · obtain ⟨t, -, hkey⟩ := List.mem_flatMap.mp h
    simp only [List.mem_cons, List.not_mem_nil, or_false] at hkey
    rcases hkey with rfl | rfl | rfl | rfl
    all_goals exact ⟨_, by decide, List.prefix_append _ _⟩

theorem headerKey_removeBody (number number' : U64) :
    (removeBody O rows number block)[headerKey number']? = rows[headerKey number']? := by
  refine (getElem?_removeBody rows number block _).resolve_left ?_
  rintro ⟨-, ⟨hlog, -⟩ | hbody⟩
  · exact (show Apart "log:index:".toList "header:number:".toList by decide).not_both hlog
      (List.prefix_append _ _)
  · exact (inFamilies_of_mem_bodyKeys hbody).ne_append (by decide) _ rfl

theorem bestKey_removeBody (number : U64) :
    (removeBody O rows number block)[bestKey]? = rows[bestKey]? := by
  refine (getElem?_removeBody rows number block _).resolve_left ?_
  rintro ⟨-, ⟨hlog, -⟩ | hbody⟩
  · exact absurd hlog (by decide)
  · exact (inFamilies_of_mem_bodyKeys hbody).not_isPrefix (by decide) List.prefix_rfl

theorem SoundRows.removeBody (h : SoundRows rows) (number : U64) (block : Block) :
    SoundRows (removeBody O rows number block) := by
  refine ⟨h.index.remove (fun key value _ hvalue => ?_) fun number' block' hblock' => ?_,
    h.below.congr (headerKey_removeBody number) (bestKey_removeBody number)⟩
  · rcases getElem?_removeBody (O := O) rows number block key with ⟨hnone, -⟩ | hsame
    · rw [hnone] at hvalue
      exact absurd hvalue (by simp)
    · rwa [← hsame]
  · have hne : number' ≠ number := by
      rintro rfl
      rw [getElem?_removeBody_body] at hblock'
      exact absurd hblock' (by simp)
    have hold : rows[blockKey number']? = some (.block block') := by
      rcases getElem?_removeBody (O := O) rows number block (blockKey number') with
        ⟨hnone, -⟩ | hsame
      · rw [hnone] at hblock'
        exact absurd hblock' (by simp)
      · rwa [← hsame]
    refine ⟨headerKey_removeBody number number', fun write hwrite => ?_⟩
    obtain ⟨location, hrow, hlocation, hlogNumber⟩ := logRow_of_mem hwrite
    refine (getElem?_removeBody rows number block _).resolve_left ?_
    rintro ⟨-, ⟨-, value, hvalue, hread⟩ | hbody⟩
    · rw [h.index.indexed number' block' hold write hwrite, hlocation] at hvalue
      rw [← Option.some.inj hvalue, hlogNumber,
        h.index.number_of_block (blockByNumber_eq_ok.mpr hold)] at hread
      exact hne (Except.ok.inj hread)
    · exact (inFamilies_of_mem_bodyKeys hbody).not_isPrefix (by decide) hrow.isPrefix

theorem pruneBodies_rec {P : Rows → Prop}
    (hremove : ∀ rows number block, P rows → P (removeBody O rows number block)) (usage : ℕ → U64)
    (target : U64) (asked : ℕ) (numbers : List U64) (h : P rows) :
    P (pruneBodies O usage target asked numbers rows) := by
  induction numbers generalizing asked rows with
  | nil => exact h
  | cons number rest ih =>
    unfold Rows.pruneBodies
    split_ifs
    · exact h
    · split
      · exact ih (asked + 1) h
      · exact ih (asked + 1) (hremove rows number _ h)

/-! ## Every database -/

/-- **The databases of a node**: blocks are inserted at the tip or above it, suffixes are published,
bodies are removed, and everything else is written and erased at will. -/
inductive Store (O : Oracle) : Rows → Prop
  | empty : Store O ∅
  | insert {rows rows' : Rows} (block : Block) : Store O rows →
      (∀ best, getBestNumber rows = .ok best → best.toNat ≤ block.header.number.toNat) →
      insertBlock O rows block = .ok rows' → Store O rows'
  | publish {rows rows' : Rows} (previous : Option GenerationManifest) (ancestor : BlockHeader)
      (replacement : List Block) (native : NativeAccounts) (evm : EvmStateSnapshot)
      (totals : U64 × U128 × U128) (target : GenerationManifest) : Store O rows →
      publishCanonicalSuffix O rows previous ancestor replacement native evm totals target =
        .ok rows' → Store O rows'
  | prune {rows : Rows} (usage : ℕ → U64) (maxBytes minimumBodyHeight : U64) : Store O rows →
      Store O (pruneOldBlocks O rows usage maxBytes minimumBodyHeight)
  | write {rows : Rows} (key : RowKey) (value : RowValue) : Store O rows → ¬ChainKey key →
      key ≠ bestKey → Store O (rows.insert key value)
  | erase {rows : Rows} (key : RowKey) : Store O rows → ¬ChainKey key → key ≠ bestKey →
      Store O (rows.erase key)

theorem SoundRows.congr (h : SoundRows rows) (hsame : SameChain rows rows') : SoundRows rows' :=
  ⟨h.index.congr fun key hkey => hsame key (.inl hkey),
    h.below.congr (fun number => hsame _ (.inl (chainKey_headerKey number))) (hsame _ (.inr rfl))⟩

/-- **The invariant holds in every database.** -/
theorem Store.sound (h : Store O rows) : SoundRows rows := by
  induction h with
  | empty =>
    refine ⟨.empty, fun number header hheader => ?_⟩
    exact absurd (hheader.symm.trans Std.ExtTreeMap.getElem?_empty) (by simp)
  | insert block _ htip hinsert ih => exact ih.insert htip hinsert
  | publish previous ancestor replacement native evm totals target _ hpublish ih =>
    exact ih.publish hpublish
  | prune usage maxBytes minimumBodyHeight _ ih =>
    exact pruneBodies_rec (fun _ number _ h => h.removeBody number _) usage _ 0 _ ih
  | write key value _ hchain hbest ih =>
    exact ih.congr (sameChain_insert hchain hbest value)
  | erase key _ hchain hbest ih =>
    exact ih.congr (sameChain_erase hchain hbest)

theorem getBestNumber_insertBlock (h : insertBlock O rows block = .ok rows') :
    getBestNumber rows' = .ok block.header.number := by
  obtain ⟨-, rfl⟩ := insertBlock_eq_ok.mp h
  exact getBestNumber_eq_ok (by rw [Map.getElem?_insert_eq, if_pos rfl])

theorem Store.insertAll {chain : List Block} (h : Store O rows)
    (hrun : chain.foldlM (insertBlock O) rows = .ok rows')
    (hup : chain.Pairwise fun earlier later =>
      earlier.header.number.toNat ≤ later.header.number.toNat)
    (htip : ∀ best, getBestNumber rows = .ok best →
      ∀ block ∈ chain, best.toNat ≤ block.header.number.toNat) : Store O rows' := by
  induction chain generalizing rows with
  | nil =>
    obtain rfl := pure_eq_ok.mp hrun
    exact h
  | cons block chain ih =>
    rw [List.foldlM_cons, bind_eq_ok] at hrun
    obtain ⟨next, hinsert, hrest⟩ := hrun
    obtain ⟨hfirst, hlater⟩ := List.pairwise_cons.mp hup
    have hnext := h.insert block (fun best hbest => htip best hbest block List.mem_cons_self) hinsert
    refine ih hnext hrest hlater fun best hbest later hmem => ?_
    rw [getBestNumber_insertBlock hinsert] at hbest
    rw [← Except.ok.inj hbest]
    exact hfirst later hmem

end Rows

end Blq
