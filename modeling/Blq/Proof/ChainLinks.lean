import Blq.Proof.Promotion

/-!
# The canonical chain is linked

From genesis to the tip there is a header at every height, and each one names the hash of the one
below as its parent. Every write of the node keeps it so, whichever thread does it.

The heights are words, and the two writes reach the last one differently: an extension of it wraps
to height zero, a published suffix stays there. Therefore nothing is said about the link of the
header at that one height.

* `LinkedThrough.insert`: a child on top of the last header of a linked chain.
* `chainInvariant_chainLinked`: no write of the import path breaks the links.
* `headers_eq_of_tip`: two linked chains with the same tip are the same, or two headers at one
  height share their hash.
-/

namespace Blq

open Word Result

variable {O : Oracle} {s s' : SledStorage}

/-! ## Headers up to a height -/

/-- There is a header at each height up to `n`, linked to the one below. -/
structure LinkedThrough (O : Oracle) (headers : Map U64 BlockHeader) (n : U64) : Prop where
  present : ∀ k : U64, k.toNat ≤ n.toNat → ∃ header, headers[k]? = some header
  link : ∀ (k above : U64) (parent header : BlockHeader), above.toNat = k.toNat + 1 →
    above.toNat ≤ n.toNat → above.toNat + 1 < 2 ^ 64 → headers[k]? = some parent →
    headers[above]? = some header → header.parentHash = parent.hash O

section Headers

variable {headers : Map U64 BlockHeader} {n : U64}

theorem LinkedThrough.mono (h : LinkedThrough O headers n) {m : U64} (hm : m.toNat ≤ n.toNat) :
    LinkedThrough O headers m where
  present k hk := h.present k (hk.trans hm)
  link k above parent header hnext hle := h.link k above parent header hnext (hle.trans hm)

theorem LinkedThrough.erase (h : LinkedThrough O headers n) {number : U64}
    (hnumber : n.toNat < number.toNat) : LinkedThrough O (headers.erase number) n := by
  have hkept : ∀ k : U64, k.toNat ≤ n.toNat → (headers.erase number)[k]? = headers[k]? := by
    intro k hk
    rw [Map.getElem?_erase_eq, if_neg]
    rintro rfl
    omega
  refine ⟨fun k hk => ?_, fun k above parent header hnext hle hmax hparent hheader => ?_⟩
  · rw [hkept k hk]
    exact h.present k hk
  · rw [hkept k (by omega)] at hparent
    rw [hkept above hle] at hheader
    exact h.link k above parent header hnext hle hmax hparent hheader

/-- **A header on top of a linked chain.** -/
theorem LinkedThrough.insert (h : LinkedThrough O headers n) {header : BlockHeader}
    (hnumber : header.number.toNat = n.toNat + 1) (hlink : header.number.toNat + 1 < 2 ^ 64 →
      ∃ parent, headers[n]? = some parent ∧ header.parentHash = parent.hash O) :
    LinkedThrough O (headers.insert header.number header) header.number := by
  have hother : ∀ k : U64, k.toNat ≠ header.number.toNat →
      (headers.insert header.number header)[k]? = headers[k]? := by
    intro k hk
    rw [Map.getElem?_insert_eq, if_neg]
    rintro rfl
    exact hk rfl
  have hself : (headers.insert header.number header)[header.number]? = some header := by
    rw [Map.getElem?_insert_eq, if_pos rfl]
  refine ⟨fun k hk => ?_, fun k above p c hnext hle hmax hp hc => ?_⟩
  · by_cases hkey : k.toNat = header.number.toNat
    · rw [BitVec.eq_of_toNat_eq hkey]
      exact ⟨header, hself⟩
    · rw [hother k hkey]
      exact h.present k (by omega)
  · rw [hother k (by omega)] at hp
    by_cases hkey : above.toNat = header.number.toNat
    · -- the new header: the one below it is the old last one
      rw [BitVec.eq_of_toNat_eq hkey, hself] at hc
      obtain rfl : n = k := BitVec.eq_of_toNat_eq (by omega)
      obtain ⟨parent, hparent, hhash⟩ := hlink (by omega)
      rw [hparent] at hp
      rw [← Option.some.inj hc, ← Option.some.inj hp]
      exact hhash
    · rw [hother above hkey] at hc
      exact h.link k above p c hnext (by omega) hmax hp hc

theorem linkedThrough_first {header : BlockHeader} (hnumber : header.number.toNat = 0) :
    LinkedThrough O (headers.insert header.number header) header.number := by
  refine ⟨fun k hk => ⟨header, ?_⟩, fun k above _ _ hnext hle => by omega⟩
  rw [Map.getElem?_insert_eq, if_pos (BitVec.eq_of_toNat_eq (by omega))]

end Headers

/-! ## The invariant -/

/-- The bodies and headers stand under their numbers. A header may be there without its body, since
bodies are pruned. -/
structure Numbered (blocks : Map U64 Block) (headers : Map U64 BlockHeader) : Prop where
  block : ∀ (k : U64) (b : Block), blocks[k]? = some b → b.header.number = k
  header : ∀ (k : U64) (header : BlockHeader), headers[k]? = some header → header.number = k

section Numbered

variable {blocks : Map U64 Block} {headers : Map U64 BlockHeader}

theorem Numbered.insert (h : Numbered blocks headers) (block : Block) :
    Numbered (blocks.insert block.header.number block)
      (headers.insert block.header.number block.header) :=
  ⟨Map.forall_insert h.block rfl, Map.forall_insert h.header rfl⟩

theorem Numbered.eraseBlock (h : Numbered blocks headers) (number : U64) :
    Numbered (blocks.erase number) headers := ⟨Map.forall_erase h.block, h.header⟩

theorem Numbered.eraseHeader (h : Numbered blocks headers) (number : U64) :
    Numbered blocks (headers.erase number) := ⟨h.block, Map.forall_erase h.header⟩

theorem numbered_replaceSuffix (h : Numbered s.blocks s.headers) (removed replacement : List Block) :
    Numbered (s.replaceSuffix removed replacement).blocks
      (s.replaceSuffix removed replacement).headers :=
  replaceSuffix_rec (P := fun s => Numbered s.blocks s.headers) h
    (fun _ block hs => (hs.eraseBlock block.header.number).eraseHeader block.header.number)
    (fun _ block _ hs => hs.insert block) removed

end Numbered

/-- The chain is linked up to its tip. -/
structure ChainLinked (O : Oracle) (s : SledStorage) : Prop where
  numbered : Numbered s.blocks s.headers
  through : ∀ n, s.bestNumber = some n → LinkedThrough O s.headers n

theorem ChainLinked.congr (h : ChainLinked O s) (hblocks : s'.blocks = s.blocks)
    (hheaders : s'.headers = s.headers) (hbest : s'.bestNumber = s.bestNumber) :
    ChainLinked O s' := by
  refine ⟨?_, fun n hn => ?_⟩
  · rw [hblocks, hheaders]
    exact h.numbered
  · rw [hheaders]
    exact h.through n (hbest ▸ hn)

theorem ChainLinked.tip (h : ChainLinked O s) {tip : BlockHeader} (hbest : s.bestHeader = .ok tip) :
    s.bestNumber = some tip.number ∧ s.headers[tip.number]? = some tip := by
  obtain ⟨n, hn, htip⟩ := bestHeader_eq_ok.mp hbest
  have hnumber := h.numbered.header n tip htip
  rw [hnumber]
  exact ⟨hn, htip⟩

theorem ChainLinked.insertBlock (h : ChainLinked O s) {block : Block} (hfollows : Follows O s block) :
    ChainLinked O (s.insertBlock block) := by
  refine ⟨h.numbered.insert block, ?_⟩
  rintro _ ⟨⟩
  show LinkedThrough O (s.headers.insert block.header.number block.header) block.header.number
  rcases hfollows with ⟨-, hzero⟩ | ⟨parent, hparent, hext⟩
  · exact linkedThrough_first (congrArg BitVec.toNat hzero)
  · obtain ⟨hnumber, htip⟩ := h.tip hparent
    obtain ⟨hhash, hnext⟩ := extendsHeader_iff.mp hext
    have hsum : block.header.number.toNat = (parent.number.toNat + 1) % 2 ^ 64 := by
      rw [hnext, BitVec.toNat_add]
      rfl
    -- on top of the last height the number wraps, and the chain starts anew
    by_cases hlast : parent.number.toNat + 1 < 2 ^ 64
    · exact (h.through _ hnumber).insert (by omega) fun _ => ⟨parent, htip, hhash⟩
    · have hbound := parent.number.isLt
      exact linkedThrough_first (by omega)

/-! ## Publishing a suffix -/

variable {replacement : List Block}

/-- The blocks of a contiguous suffix are written one after the other. The induction is over the
suffix; below its first height the chain is linked already. -/
theorem linkedThrough_putBlocks {ε : Type} {err : BlockHeader → BlockHeader → ε}
    {parent : BlockHeader} (h : ∀ m : U64, m.toNat + 1 = (saturatingAdd parent.number 1).toNat →
      LinkedThrough O s.headers m) (hstored : parent.number.toNat + 1 < 2 ^ 64 →
      ∃ stored, s.headers[parent.number]? = some stored ∧ stored.hash O = parent.hash O)
    (hcontiguous : SledStorage.checkContiguous O err parent replacement = .ok ()) {tip : Block}
    (htip : replacement.getLast? = some tip) :
    LinkedThrough O (replacement.foldl SledStorage.putBlock s).headers tip.header.number := by
  induction replacement generalizing s parent with
  | nil => exact absurd htip (by simp)
  | cons block rest ih =>
    obtain ⟨⟨hnumber, hhash⟩, hrest⟩ := checkContiguous_cons.mp hcontiguous
    have hnat : block.header.number.toNat = min (parent.number.toNat + 1) (2 ^ 64 - 1) := by
      rw [hnumber, toNat_saturatingAdd_one]
    have hput : LinkedThrough O (s.putBlock block).headers block.header.number := by
      have hbound := parent.number.isLt
      have hbelow : (BitVec.ofNat 64 (block.header.number.toNat - 1)).toNat =
          block.header.number.toNat - 1 := by
        rw [BitVec.toNat_ofNat]
        omega
      refine (h (BitVec.ofNat 64 (block.header.number.toNat - 1)) ?_).insert (by omega) fun hlt => ?_
      · rw [← hnumber]
        omega
      · obtain ⟨stored, hget, hsame⟩ := hstored (by omega)
        have hkey : BitVec.ofNat 64 (block.header.number.toNat - 1) = parent.number :=
          BitVec.eq_of_toNat_eq (by omega)
        rw [hkey]
        exact ⟨stored, hget, by rw [hhash, hsame]⟩
    cases rest with
    | nil =>
      obtain rfl : block = tip := by simpa using htip
      exact hput
    | cons next rest =>
      have hbelow : ∀ m : U64, m.toNat + 1 = (saturatingAdd block.header.number 1).toNat →
          LinkedThrough O (s.putBlock block).headers m := by
        intro m hm
        have hsum := toNat_saturatingAdd_le block.header.number 1
        have hone : (1 : U64).toNat = 1 := rfl
        exact hput.mono (by omega)
      have hget : (s.putBlock block).headers[block.header.number]? = some block.header :=
        (Map.getElem?_insert_eq _ _ _ _).trans (if_pos rfl)
      exact ih hbelow (fun _ => ⟨block.header, hget, rfl⟩) hrest (by simpa using htip)

theorem linkedThrough_removeBlocks {removed : List Block} {n : U64}
    (h : LinkedThrough O s.headers n) (hremoved : ∀ b ∈ removed, n.toNat < b.header.number.toNat) :
    LinkedThrough O (removed.foldl SledStorage.removeBlock s).headers n ∧
      ∀ k : U64, k.toNat ≤ n.toNat →
        (removed.foldl SledStorage.removeBlock s).headers[k]? = s.headers[k]? := by
  induction removed generalizing s with
  | nil => exact ⟨h, fun _ _ => rfl⟩
  | cons b rest ih =>
    obtain ⟨hb, hrest⟩ := List.forall_mem_cons.mp hremoved
    obtain ⟨hlinked, hkept⟩ := ih (s := s.removeBlock b) (h.erase hb) hrest
    refine ⟨hlinked, fun k hk => (hkept k hk).trans ?_⟩
    refine (Map.getElem?_erase_eq _ _ _).trans (if_neg ?_)
    rintro rfl
    omega

theorem ChainLinked.publish (h : ChainLinked O s) {ancestor : BlockHeader} {native : NativeAccounts}
    {evm : EvmStateSnapshot} {totals : U64 × U128 × U128}
    (hs' : s.publishCanonicalSuffix O ancestor replacement native evm totals = .ok s') :
    ChainLinked O s' := by
  obtain ⟨best, tip, removed, hpublished⟩ := publishCanonicalSuffix_eq_ok hs'
  obtain ⟨stored, hstored, hhash⟩ := hpublished.stored
  have hthrough := h.through _ (h.tip hpublished.current).1
  have hle := hpublished.below
  -- the removed bodies are those above the ancestor
  have habove : ∀ b ∈ removed,
      (saturatingAdd ancestor.number 1).toNat ≤ b.header.number.toNat := by
    intro b hb
    obtain ⟨k, hk, hkb⟩ := mem_of_mapM_eq_ok hpublished.bodies b hb
    rw [h.numbered.block k b (blockByNumber_eq_ok.mp hkb)]
    exact (mem_heights.mp hk).1
  have hsum : (saturatingAdd ancestor.number 1).toNat =
      min (ancestor.number.toNat + 1) (2 ^ 64 - 1) := by
    rw [toNat_saturatingAdd_one]
  refine ⟨?_, fun n hn => ?_⟩
  · rw [hpublished.blocks, hpublished.headers]
    exact numbered_replaceSuffix h.numbered removed replacement
  · obtain rfl : tip.header.number = n := Option.some.inj (hpublished.bestNumber.symm.trans hn)
    rw [hpublished.headers]
    refine linkedThrough_putBlocks (fun m hm => ?_) (fun hlt => ?_) hpublished.contiguous hpublished.last
    · refine (linkedThrough_removeBlocks (hthrough.mono (by omega)) fun b hb => ?_).1
      have := habove b hb
      omega
    · refine ⟨stored, ?_, hhash⟩
      have hkept := (linkedThrough_removeBlocks (hthrough.mono hle) fun b hb => by
        have := habove b hb
        omega).2 ancestor.number le_rfl
      exact hkept.trans (headerByNumber_eq_ok.mp hstored)

/-- **No write of the import path breaks the links.** -/
theorem chainInvariant_chainLinked : ChainInvariant O (fun _ => True) (ChainLinked O) where
  bodies s _ := ⟨fun _ _ _ => trivial, fun _ _ _ => trivial, fun _ _ _ => trivial,
    fun _ _ _ _ => trivial⟩
  view s s' h hview := h.congr (congrArg ChainView.blocks hview) (congrArg ChainView.headers hview)
    (congrArg ChainView.bestNumber hview)
  insertBlock s block h _ hinserted := h.insertBlock hinserted.follows
  removeOrphan s hash h := h.congr rfl rfl rfl
  storeOrphan s s' block h _ hs' := by
    obtain ⟨orphans, rfl, -⟩ := storeOrphanBlock_eq_ok hs'
    exact h.congr rfl rfl rfl
  storeCandidate s s' block work h _ _ hs' := by
    obtain rfl := storeCandidateBlock_eq_ok hs'
    exact h.congr rfl rfl rfl
  clearCandidates s h := h.congr rfl rfl rfl
  removeCandidates s hashes h :=
    List.foldlRecOn (motive := ChainLinked O) hashes _ h fun _ h' _ _ => h'.congr rfl rfl rfl
  quarantine s hash reason h := h.congr rfl rfl rfl
  clearCanonical s _ :=
    ⟨⟨by simp [SledStorage.clearCanonicalState], by simp [SledStorage.clearCanonicalState]⟩,
      by rintro n ⟨⟩⟩
  publish s s' ancestor replacement native evm totals h _ hs' := h.publish hs'

/-! ## Two chains with one tip -/

/-- At one height the chains have different headers with the same hash. -/
def HeadersCollide (O : Oracle) (s s' : SledStorage) : Prop :=
  ∃ (k : U64) (header header' : BlockHeader), s.headers[k]? = some header ∧
    s'.headers[k]? = some header' ∧ header ≠ header' ∧ header.hash O = header'.hash O

/-- **A tip determines the chain below it**, collisions apart. -/
theorem headers_eq_of_tip (h : ChainLinked O s) (h' : ChainLinked O s') {tip : BlockHeader}
    (hbest : s.bestHeader = .ok tip) (hbest' : s'.bestHeader = .ok tip)
    (hheight : tip.number.toNat + 1 < 2 ^ 64) (hnone : ¬HeadersCollide O s s') (k : U64)
    (hk : k.toNat ≤ tip.number.toNat) : s'.headers[k]? = s.headers[k]? := by
  obtain ⟨hnumber, htip⟩ := h.tip hbest
  obtain ⟨hnumber', htip'⟩ := h'.tip hbest'
  have hthrough := h.through _ hnumber
  have hthrough' := h'.through _ hnumber'
  -- downwards from the tip, over the distance to it
  obtain ⟨distance, hdistance⟩ : ∃ distance, k.toNat + distance = tip.number.toNat :=
    ⟨tip.number.toNat - k.toNat, by omega⟩
  induction distance generalizing k with
  | zero =>
    obtain rfl : k = tip.number := BitVec.eq_of_toNat_eq (by omega)
    rw [htip, htip']
  | succ distance ih =>
    have habove : (k + 1).toNat = k.toNat + 1 := by bv_omega
    have hsame := ih (k + 1) (by omega) (by omega)
    obtain ⟨above, hgetAbove⟩ := hthrough.present (k + 1) (by omega)
    obtain ⟨header, hget⟩ := hthrough.present k hk
    obtain ⟨header', hget'⟩ := hthrough'.present k hk
    have hlink := hthrough.link k (k + 1) header above habove (by omega) (by omega) hget hgetAbove
    have hlink' := hthrough'.link k (k + 1) header' above habove (by omega) (by omega) hget'
      (hsame.trans hgetAbove)
    by_contra hne
    refine hnone ⟨k, header, header', hget, hget', ?_, hlink.symm.trans hlink'⟩
    rintro rfl
    exact hne (hget'.trans hget.symm)

end Blq
