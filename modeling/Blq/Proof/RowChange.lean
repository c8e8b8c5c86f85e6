import Blq.Proof.StoreRows

/-!
# What a change of the chain leaves

The changes of a database one by one, and up to which height they leave the chain as it was.

* `KeptUpTo`: below a height the headers are the same and no body has changed.
* `kept_change`: **only a publication reaches below the tip**, down to its ancestor.
-/

namespace Blq.Rows

open Word Result

variable {O : Oracle} {rows rows' : Rows} {c : RowChange} {bound : ℕ}

inductive RowChange where
  /-- a block on top of the tip -/
  | extend (block : Block)
  | publish (previous : Option GenerationManifest) (ancestor : BlockHeader) (replacement : List Block)
      (native : NativeAccounts) (evm : EvmStateSnapshot) (totals : U64 × U128 × U128)
      (target : GenerationManifest)
  | prune (usage : ℕ → U64) (maxBytes minimumBodyHeight : U64)
  /-- a row of no block, header or log -/
  | write (key : RowKey) (value : RowValue)
  | erase (key : RowKey)

instance (key : RowKey) : Decidable (ChainKey key) := by unfold ChainKey; infer_instance

def follows (rows : Rows) (number : U64) : Bool :=
  match getBestNumber rows with
  | .ok best => decide (number.toNat = best.toNat + 1)
  | .error _ => false

/-- The database after a change; one that fails leaves it. -/
def change (O : Oracle) (rows : Rows) : RowChange → Rows
  | .extend block =>
    if follows rows block.header.number then (insertBlock O rows block).toOption.getD rows else rows
  | .publish previous ancestor replacement native evm totals target =>
    (publishCanonicalSuffix O rows previous ancestor replacement native evm totals target).toOption.getD
      rows
  | .prune usage maxBytes minimumBodyHeight => pruneOldBlocks O rows usage maxBytes minimumBodyHeight
  | .write key value => if ChainKey key ∨ key = bestKey then rows else rows.insert key value
  | .erase key => if ChainKey key ∨ key = bestKey then rows else rows.erase key

theorem getD_toOption {ε α : Type} (x : Except ε α) (a : α) :
    (∃ b, x = .ok b ∧ x.toOption.getD a = b) ∨ x.toOption.getD a = a := by
  cases x with
  | error e => exact .inr rfl
  | ok b => exact .inl ⟨b, rfl, rfl⟩

/-- **What a change can do.** -/
inductive Changed (O : Oracle) (rows : Rows) : RowChange → Rows → Prop
  | nothing (c : RowChange) : Changed O rows c rows
  | extend (block : Block) (best : U64) (rows' : Rows) : getBestNumber rows = .ok best →
      block.header.number.toNat = best.toNat + 1 → insertBlock O rows block = .ok rows' →
      Changed O rows (.extend block) rows'
  | publish (previous : Option GenerationManifest) (ancestor : BlockHeader) (replacement : List Block)
      (native : NativeAccounts) (evm : EvmStateSnapshot) (totals : U64 × U128 × U128)
      (target : GenerationManifest) (rows' : Rows) :
      publishCanonicalSuffix O rows previous ancestor replacement native evm totals target = .ok rows' →
      Changed O rows (.publish previous ancestor replacement native evm totals target) rows'
  | prune (usage : ℕ → U64) (maxBytes minimumBodyHeight : U64) :
      Changed O rows (.prune usage maxBytes minimumBodyHeight)
        (pruneOldBlocks O rows usage maxBytes minimumBodyHeight)
  | write (key : RowKey) (value : RowValue) : ¬ChainKey key → key ≠ bestKey →
      Changed O rows (.write key value) (rows.insert key value)
  | erase (key : RowKey) : ¬ChainKey key → key ≠ bestKey →
      Changed O rows (.erase key) (rows.erase key)

theorem changed_change (O : Oracle) (rows : Rows) (c : RowChange) : Changed O rows c (rows.change O c) := by
  cases c with
  | extend block =>
    show Changed O rows _ (if follows rows block.header.number then _ else _)
    split_ifs with hfollows
    · rcases getD_toOption (insertBlock O rows block) rows with ⟨next, hinsert, heq⟩ | heq
      · rw [heq]
        unfold follows at hfollows
        split at hfollows
        next best hbest => exact .extend block best next hbest (of_decide_eq_true hfollows) hinsert
        next => exact absurd hfollows Bool.false_ne_true
      · rw [heq]
        exact .nothing _
    · exact .nothing _
  | publish previous ancestor replacement native evm totals target =>
    show Changed O rows _ ((publishCanonicalSuffix O rows previous ancestor replacement native evm totals
      target).toOption.getD rows)
    rcases getD_toOption (publishCanonicalSuffix O rows previous ancestor replacement native evm totals
      target) rows with ⟨next, hpublish, heq⟩ | heq
    · rw [heq]
      exact .publish previous ancestor replacement native evm totals target next hpublish
    · rw [heq]
      exact .nothing _
  | prune usage maxBytes minimumBodyHeight => exact .prune usage maxBytes minimumBodyHeight
  | write key value =>
    show Changed O rows _ (if ChainKey key ∨ key = bestKey then _ else _)
    split_ifs with hkey
    · exact .nothing _
    · exact .write key value (fun hchain => hkey (.inl hchain)) fun hbest => hkey (.inr hbest)
  | erase key =>
    show Changed O rows _ (if ChainKey key ∨ key = bestKey then _ else _)
    split_ifs with hkey
    · exact .nothing _
    · exact .erase key (fun hchain => hkey (.inl hchain)) fun hbest => hkey (.inr hbest)

theorem Store.change (h : Store O rows) (hc : Changed O rows c rows') :
    Store O rows' := by
  cases hc with
  | nothing => exact h
  | extend block best rows' hbest hnext hinsert =>
    refine h.insert block (fun best' hbest' => ?_) hinsert
    obtain rfl := Except.ok.inj (hbest.symm.trans hbest')
    omega
  | publish previous ancestor replacement native evm totals target rows' hpublish =>
    exact h.publish previous ancestor replacement native evm totals target hpublish
  | prune usage maxBytes minimumBodyHeight => exact h.prune usage maxBytes minimumBodyHeight
  | write key value hchain hbest => exact h.write key value hchain hbest
  | erase key hchain hbest => exact h.erase key hchain hbest

/-! ## What is kept -/

/-- Up to a height the headers are the same and the bodies are the same or removed. -/
structure KeptUpTo (rows rows' : Rows) (bound : ℕ) : Prop where
  header : ∀ number : U64, number.toNat ≤ bound → rows'[headerKey number]? = rows[headerKey number]?
  body : ∀ (number : U64) (block : Block), number.toNat ≤ bound →
    rows'[blockKey number]? = some (.block block) → rows[blockKey number]? = some (.block block)

theorem KeptUpTo.refl (rows : Rows) (bound : ℕ) : KeptUpTo rows rows bound :=
  ⟨fun _ _ => rfl, fun _ _ _ hbody => hbody⟩

theorem KeptUpTo.trans {rows'' : Rows} (h : KeptUpTo rows rows' bound)
    (h' : KeptUpTo rows' rows'' bound) : KeptUpTo rows rows'' bound :=
  ⟨fun number hle => (h'.header number hle).trans (h.header number hle),
    fun number block hle hbody => h.body number block hle (h'.body number block hle hbody)⟩

theorem KeptUpTo.of_chainKeys (h : ∀ key, ChainKey key → rows'[key]? = rows[key]?) (bound : ℕ) :
    KeptUpTo rows rows' bound :=
  ⟨fun number _ => h _ (chainKey_headerKey number),
    fun number _ _ hbody => (h _ (chainKey_blockKey number)).symm.trans hbody⟩

theorem kept_insertBlock {block : Block} (h : insertBlock O rows block = .ok rows')
    (hbound : bound < block.header.number.toNat) : KeptUpTo rows rows' bound := by
  obtain ⟨-, rfl⟩ := insertBlock_eq_ok.mp h
  have hne : ∀ number : U64, number.toNat ≤ bound → block.header.number ≠ number := by
    rintro number hle rfl
    omega
  have hput : KeptUpTo rows (Map.putAll rows (batchRows O block)) bound := by
    refine ⟨fun number hle => ?_, fun number block' hle hbody => ?_⟩
    · rw [getElem?_headerKey_put, if_neg (hne number hle)]
    · rwa [getElem?_blockKey_put, if_neg (hne number hle)] at hbody
  refine hput.trans (.of_chainKeys (fun key hkey => ?_) bound)
  rw [Map.getElem?_insert_eq, if_neg]
  rintro rfl
  exact not_chainKey_bestKey hkey

theorem kept_removeBody (number : U64) (block : Block) (bound : ℕ) :
    KeptUpTo rows (removeBody O rows number block) bound := by
  refine ⟨fun number' _ => headerKey_removeBody number number', fun number' block' _ hbody => ?_⟩
  rcases getElem?_removeBody (O := O) rows number block (blockKey number') with ⟨hnone, -⟩ | hsame
  · rw [hnone] at hbody
    exact absurd hbody (by simp)
  · rwa [← hsame]

theorem kept_pruneBodies (usage : ℕ → U64) (target : U64) (asked : ℕ) (numbers : List U64) (bound : ℕ) :
    KeptUpTo rows (pruneBodies O usage target asked numbers rows) bound :=
  pruneBodies_rec (P := (KeptUpTo rows · bound))
    (fun _ number block h => h.trans (kept_removeBody number block bound)) usage target asked
    numbers (.refl rows bound)

section Publish

variable {previous : Option GenerationManifest} {ancestor : BlockHeader} {replacement : List Block}
  {native : NativeAccounts} {evm : EvmStateSnapshot} {totals : U64 × U128 × U128}
  {target : GenerationManifest}

theorem kept_publish (h : SoundRows rows)
    (hpublish : publishCanonicalSuffix O rows previous ancestor replacement native evm totals target =
      .ok rows') (hbound : bound < (saturatingAdd ancestor.number 1).toNat) :
    KeptUpTo rows rows' bound := by
  obtain ⟨best, removed, tip, keys, hbest, hle, hremoved, hcontiguous, htip, hkeys, -, rfl⟩ :=
    publishCanonicalSuffix_eq_ok hpublish
  have hnumbers := numbers_of_contiguous hcontiguous htip
  -- the blocks that go and those that come are above the ancestor
  have hnotRemoved : ∀ number : U64, number.toNat ≤ bound → headerKey number ∉ keys := by
    intro number hle hmem
    exact not_removed_headerKey (h.index.le_of_mem hremoved) (by omega) ((hkeys _).mp hmem)
  have hwritten : ∀ (key : RowKey) (number : U64), number.toNat ≤ bound →
      (∀ block write, write ∈ batchRows O block → write.1 = key → block.header.number = number) →
      (Map.putAll (cleared rows keys) (chainRows O replacement))[key]? =
        if key ∈ keys then none else rows[key]? := by
    intro key number hle hown
    rw [Map.getElem?_putAll_of_not_mem, getElem?_cleared]
    intro hmem
    obtain ⟨write, hwrite, hkey⟩ := List.mem_map.mp hmem
    obtain ⟨block, hblock, hwrite⟩ := mem_chainRows.mp hwrite
    have hfrom := (hnumbers block hblock).1
    rw [hown block write hwrite hkey] at hfrom
    omega
  refine ⟨fun number hle => ?_, fun number block hle hbody => ?_⟩
  · rw [getElem?_chainKey_putAll (chainKey_headerKey number), hwritten _ number hle
      fun block write hwrite hkey => (eq_of_headerKey hwrite hkey).1, if_neg (hnotRemoved number hle)]
  · rw [getElem?_chainKey_putAll (chainKey_blockKey number), hwritten _ number hle
      fun block write hwrite hkey => (eq_of_blockKey hwrite hkey).1] at hbody
    split_ifs at hbody
    exact hbody

theorem bestNumber_publish
    (hpublish : publishCanonicalSuffix O rows previous ancestor replacement native evm totals target =
      .ok rows') :
    ∃ best, getBestNumber rows' = .ok best ∧ (saturatingAdd ancestor.number 1).toNat ≤ best.toNat := by
  obtain ⟨-, -, tip, keys, -, -, -, hcontiguous, htip, -, -, rfl⟩ :=
    publishCanonicalSuffix_eq_ok hpublish
  refine ⟨tip.header.number, getBestNumber_eq_ok getElem?_bestKey_stateRows, ?_⟩
  exact (numbers_of_contiguous hcontiguous htip tip (List.mem_of_getLast? htip)).1

theorem bestHeader_publish
    (hpublish : publishCanonicalSuffix O rows previous ancestor replacement native evm totals target =
      .ok rows') : ∃ tip, bestHeader rows' = .ok tip := by
  obtain ⟨-, -, tip, keys, -, -, -, -, htip, -, -, rfl⟩ := publishCanonicalSuffix_eq_ok hpublish
  obtain ⟨earlier, rfl⟩ := List.getLast?_eq_some_iff.mp htip
  refine ⟨tip.header, bind_eq_ok.mpr ⟨tip.header.number, getBestNumber_eq_ok getElem?_bestKey_stateRows,
    headerByNumber_eq_ok.mpr ?_⟩⟩
  have hone : chainRows O [tip] = batchRows O tip := by simp [chainRows]
  rw [getElem?_chainKey_putAll (chainKey_headerKey _), chainRows_append, Map.putAll_append, hone,
    getElem?_headerKey_put, if_pos rfl]

end Publish

/-! ## One change -/

/-- The change replaces no block up to the height. -/
def RowChange.Above (bound : ℕ) : RowChange → Prop
  | .publish _ ancestor _ _ _ _ _ => bound < (saturatingAdd ancestor.number 1).toNat
  | _ => True

theorem getBestNumber_congr (h : rows'[bestKey]? = rows[bestKey]?) :
    getBestNumber rows' = getBestNumber rows := by
  unfold getBestNumber
  rw [h]

theorem bestKey_pruneBodies (usage : ℕ → U64) (target : U64) (asked : ℕ) (numbers : List U64) :
    (pruneBodies O usage target asked numbers rows)[bestKey]? = rows[bestKey]? :=
  pruneBodies_rec (P := fun rows' => rows'[bestKey]? = rows[bestKey]?)
    (fun _ number _ h => (bestKey_removeBody number).trans h) usage target asked numbers rfl

theorem SameChain.kept (h : SameChain rows rows') {bound best : U64}
    (hbest : getBestNumber rows = .ok best) (hbound : bound.toNat ≤ best.toNat) :
    KeptUpTo rows rows' bound.toNat ∧
      ∃ best', getBestNumber rows' = .ok best' ∧ bound.toNat ≤ best'.toNat :=
  ⟨.of_chainKeys (fun key hkey => h key (.inl hkey)) _, best,
    (getBestNumber_congr (h _ (.inr rfl))).trans hbest, hbound⟩

/-- **A change above a height below the tip keeps the chain up to there**, and the tip stays at or
above it. -/
theorem kept_change (h : Store O rows) (hc : Changed O rows c rows') {bound best : U64}
    (hbest : getBestNumber rows = .ok best) (hbound : bound.toNat ≤ best.toNat)
    (habove : c.Above bound.toNat) :
    KeptUpTo rows rows' bound.toNat ∧
      ∃ best', getBestNumber rows' = .ok best' ∧ bound.toNat ≤ best'.toNat := by
  cases hc with
  | nothing => exact ⟨.refl rows _, best, hbest, hbound⟩
  | extend block best' rows' hbest' hnext hinsert =>
    obtain rfl := Except.ok.inj (hbest.symm.trans hbest')
    exact ⟨kept_insertBlock hinsert (by omega), _, getBestNumber_insertBlock hinsert, by omega⟩
  | publish previous ancestor replacement native evm totals target rows' hpublish =>
    obtain ⟨best', hbest', hle⟩ := bestNumber_publish hpublish
    have hfirst : bound.toNat < (saturatingAdd ancestor.number 1).toNat := habove
    exact ⟨kept_publish h.sound hpublish hfirst, best', hbest', by omega⟩
  | prune usage maxBytes minimumBodyHeight =>
    exact ⟨kept_pruneBodies usage _ 0 _ _, best,
      (getBestNumber_congr (bestKey_pruneBodies usage _ 0 _)).trans hbest, hbound⟩
  | write key value hchain hkey => exact (sameChain_insert hchain hkey value).kept hbest hbound
  | erase key hchain hkey => exact (sameChain_erase hchain hkey).kept hbest hbound

theorem bestHeader_eq_ok (h : IndexedRows rows) {tip : BlockHeader} (htip : bestHeader rows = .ok tip) :
    getBestNumber rows = .ok tip.number ∧ headerByNumber rows tip.number = .ok tip := by
  obtain ⟨best, hbest, hheader⟩ := bind_eq_ok.mp htip
  rw [h.number_of_header hheader]
  exact ⟨hbest, hheader⟩

theorem bestHeader_congr (hbest : rows'[bestKey]? = rows[bestKey]?)
    (hheader : ∀ number, rows'[headerKey number]? = rows[headerKey number]?) :
    bestHeader rows' = bestHeader rows := by
  have hread : ∀ number, headerByNumber rows' number = headerByNumber rows number := fun number => by
    unfold headerByNumber
    rw [hheader]
  unfold bestHeader
  rw [getBestNumber_congr hbest]
  simp only [hread]

theorem SameChain.bestHeader (h : SameChain rows rows') : Rows.bestHeader rows' = Rows.bestHeader rows :=
  bestHeader_congr (h _ (.inr rfl)) fun number => h _ (.inl (chainKey_headerKey number))

/-- **A chain has a tip after every change.** -/
theorem bestHeader_change (hc : Changed O rows c rows') {tip : BlockHeader}
    (htip : bestHeader rows = .ok tip) : ∃ tip', bestHeader rows' = .ok tip' := by
  cases hc with
  | nothing => exact ⟨tip, htip⟩
  | extend block best rows' hbest hnext hinsert =>
    refine ⟨block.header, bind_eq_ok.mpr ⟨_, getBestNumber_insertBlock hinsert,
      headerByNumber_eq_ok.mpr ?_⟩⟩
    obtain ⟨-, rfl⟩ := insertBlock_eq_ok.mp hinsert
    rw [Map.getElem?_insert_eq, if_neg, getElem?_headerKey_put, if_pos rfl]
    intro hkey
    exact not_chainKey_bestKey (hkey ▸ chainKey_headerKey block.header.number)
  | publish previous ancestor replacement native evm totals target rows' hpublish =>
    exact bestHeader_publish hpublish
  | prune usage maxBytes minimumBodyHeight =>
    have hheader : ∀ number, (pruneOldBlocks O rows usage maxBytes minimumBodyHeight)[headerKey number]? =
        rows[headerKey number]? :=
      fun number => (kept_pruneBodies usage _ 0 _ number.toNat).header number le_rfl
    exact ⟨tip, (bestHeader_congr (bestKey_pruneBodies usage _ 0 _) hheader).trans htip⟩
  | write key value hchain hkey =>
    exact ⟨tip, (sameChain_insert hchain hkey value).bestHeader.trans htip⟩
  | erase key hchain hkey => exact ⟨tip, (sameChain_erase hchain hkey).bestHeader.trans htip⟩

end Blq.Rows
