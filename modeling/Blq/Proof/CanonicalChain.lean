import Blq.Proof.ChainLinks

/-!
# The canonical chain as a list

The store keeps the chain as rows under heights. Here it is the list of its blocks above genesis:
inserting a block appends to it, publishing a suffix replaces its end, reading heights reads a part
of it. Heights stay below the last one that 64 bits hold.

* `Canonical`: the rows up to the best height are those of the list.
* `Canonical.insertBlock`, `Canonical.publish`: what the two writes do to the list.
* `Canonical.mapM_heights`: the bodies above an ancestor are the rest of the list.
-/

namespace Blq

open Word Result

variable {O : Oracle} {s s' : SledStorage} {genesis : Block} {chain : List Block}

/-! ## Rows -/

/-- The rows at the heights of a chain are its blocks, each under its own number. -/
structure ChainRows (blocks : Map U64 Block) (headers : Map U64 BlockHeader) (genesis : Block)
    (chain : List Block) : Prop where
  fits : chain.length + 1 < 2 ^ 64
  block : ∀ i ≤ chain.length, blocks[BitVec.ofNat 64 i]? = (genesis :: chain)[i]?
  header : ∀ i ≤ chain.length,
    headers[BitVec.ofNat 64 i]? = ((genesis :: chain)[i]?).map Block.header
  number : ∀ (i : ℕ) (b : Block), (genesis :: chain)[i]? = some b → b.header.number.toNat = i

section Rows

variable {blocks : Map U64 Block} {headers : Map U64 BlockHeader}

theorem ChainRows.take (h : ChainRows blocks headers genesis chain) (a : ℕ) :
    ChainRows blocks headers genesis (chain.take a) := by
  have hsame : ∀ i ≤ (chain.take a).length,
      (genesis :: chain.take a)[i]? = (genesis :: chain)[i]? := by
    intro i hi
    cases i with
    | zero => rfl
    | succ i =>
      rw [List.length_take] at hi
      rw [List.getElem?_cons_succ, List.getElem?_cons_succ, List.getElem?_take_of_lt (by omega)]
  have hlength : (chain.take a).length ≤ chain.length := by
    rw [List.length_take]
    exact min_le_right _ _
  have hfits := h.fits
  refine ⟨by omega, fun i hi => ?_, fun i hi => ?_, fun i b hb => ?_⟩
  · rw [hsame i hi]
    exact h.block i (hi.trans hlength)
  · rw [hsame i hi]
    exact h.header i (hi.trans hlength)
  · have hi : i ≤ (chain.take a).length := by
      have hlt := (List.getElem?_eq_some_iff.mp hb).1
      rw [List.length_cons] at hlt
      omega
    rw [hsame i hi] at hb
    exact h.number i b hb

theorem ChainRows.erase (h : ChainRows blocks headers genesis chain) {number : U64}
    (hnumber : chain.length < number.toNat) :
    ChainRows (blocks.erase number) (headers.erase number) genesis chain := by
  have hfits := h.fits
  have hkey : ∀ i ≤ chain.length, number ≠ BitVec.ofNat 64 i := by
    rintro i hi rfl
    rw [toNat_ofNat_of_lt (by omega)] at hnumber
    omega
  refine ⟨h.fits, fun i hi => ?_, fun i hi => ?_, h.number⟩
  · rw [Map.getElem?_erase_eq, if_neg (hkey i hi)]
    exact h.block i hi
  · rw [Map.getElem?_erase_eq, if_neg (hkey i hi)]
    exact h.header i hi

/-- **A block on top of the chain.** -/
theorem ChainRows.insert (h : ChainRows blocks headers genesis chain) {b : Block}
    (hnumber : b.header.number.toNat = chain.length + 1) (hfits : chain.length + 2 < 2 ^ 64) :
    ChainRows (blocks.insert b.header.number b) (headers.insert b.header.number b.header) genesis
      (chain ++ [b]) := by
  have hlast : b.header.number = BitVec.ofNat 64 (chain.length + 1) :=
    BitVec.eq_of_toNat_eq (by rw [hnumber, toNat_ofNat_of_lt (by omega)])
  have hbelow : ∀ i ≤ chain.length, b.header.number ≠ BitVec.ofNat 64 i := by
    intro i hi heq
    rw [heq, toNat_ofNat_of_lt (by omega)] at hnumber
    omega
  have hget : ∀ i ≤ chain.length, (genesis :: (chain ++ [b]))[i]? = (genesis :: chain)[i]? := by
    intro i hi
    rw [← List.cons_append, List.getElem?_append_left (by rw [List.length_cons]; omega)]
  have htop : (genesis :: (chain ++ [b]))[chain.length + 1]? = some b := by
    rw [List.getElem?_cons_succ, List.getElem?_append_right le_rfl, Nat.sub_self]
    rfl
  have hlength : (chain ++ [b]).length = chain.length + 1 := List.length_append
  refine ⟨by omega, fun i hi => ?_, fun i hi => ?_, fun i c hc => ?_⟩
  · rw [Map.getElem?_insert_eq]
    rcases Nat.lt_or_ge chain.length i with hi' | hi'
    · obtain rfl : i = chain.length + 1 := by omega
      rw [if_pos hlast, htop]
    · rw [if_neg (hbelow i hi'), hget i hi']
      exact h.block i hi'
  · rw [Map.getElem?_insert_eq]
    rcases Nat.lt_or_ge chain.length i with hi' | hi'
    · obtain rfl : i = chain.length + 1 := by omega
      rw [if_pos hlast, htop]
      rfl
    · rw [if_neg (hbelow i hi'), hget i hi']
      exact h.header i hi'
  · have hi : i < (genesis :: (chain ++ [b])).length := (List.getElem?_eq_some_iff.mp hc).1
    rw [List.length_cons, hlength] at hi
    rcases Nat.lt_or_ge chain.length i with hi' | hi'
    · obtain rfl : i = chain.length + 1 := by omega
      rw [htop] at hc
      rw [← Option.some.inj hc]
      exact hnumber
    · rw [hget i hi'] at hc
      exact h.number i c hc

end Rows

/-! ## The chain of a store -/

/-- The canonical chain of the store, from genesis to the best height. -/
structure Canonical (s : SledStorage) (genesis : Block) (chain : List Block) : Prop where
  best : s.bestNumber = some (BitVec.ofNat 64 chain.length)
  rows : ChainRows s.blocks s.headers genesis chain

theorem canonical_first (hnumber : genesis.header.number = 0) :
    Canonical (s.insertBlock genesis) genesis [] := by
  refine ⟨congrArg some hnumber, by decide, fun i hi => ?_, fun i hi => ?_, fun i b hb => ?_⟩
  · obtain rfl : i = 0 := Nat.le_zero.mp hi
    exact (Map.getElem?_insert_eq ..).trans (if_pos hnumber)
  · obtain rfl : i = 0 := Nat.le_zero.mp hi
    exact (Map.getElem?_insert_eq ..).trans (if_pos hnumber)
  · have hi : i < 1 := (List.getElem?_eq_some_iff.mp hb).1
    obtain rfl : i = 0 := by omega
    obtain rfl : genesis = b := Option.some.inj hb
    rw [hnumber]
    rfl

theorem Canonical.congr (h : Canonical s genesis chain) (hblocks : s'.blocks = s.blocks)
    (hheaders : s'.headers = s.headers) (hbest : s'.bestNumber = s.bestNumber) :
    Canonical s' genesis chain := by
  refine ⟨hbest.trans h.best, ?_⟩
  rw [hblocks, hheaders]
  exact h.rows

theorem Canonical.exists_block (h : Canonical s genesis chain) {i : ℕ} (hi : i ≤ chain.length) :
    ∃ b, (genesis :: chain)[i]? = some b ∧ s.blocks[BitVec.ofNat 64 i]? = some b ∧
      s.headers[BitVec.ofNat 64 i]? = some b.header := by
  have hlt : i < (genesis :: chain).length := by
    rw [List.length_cons]
    omega
  obtain ⟨b, hb⟩ : ∃ b, (genesis :: chain)[i]? = some b := ⟨_, List.getElem?_eq_getElem hlt⟩
  refine ⟨b, hb, (h.rows.block i hi).trans hb, (h.rows.header i hi).trans ?_⟩
  rw [hb]
  rfl

theorem Canonical.bestHeader (h : Canonical s genesis chain) {tip : BlockHeader}
    (htip : s.bestHeader = .ok tip) :
    ∃ b, (genesis :: chain)[chain.length]? = some b ∧ b.header = tip ∧
      tip.number.toNat = chain.length := by
  obtain ⟨n, hn, hheader⟩ := bestHeader_eq_ok.mp htip
  obtain ⟨b, hb, -, hget⟩ := h.exists_block le_rfl
  obtain rfl : BitVec.ofNat 64 chain.length = n := Option.some.inj (h.best.symm.trans hn)
  obtain rfl : b.header = tip := Option.some.inj (hget.symm.trans hheader)
  exact ⟨b, hb, rfl, h.rows.number _ b hb⟩

theorem Canonical.mapM_heights (h : Canonical s genesis chain) {a : ℕ} (ha : a ≤ chain.length)
    {first last : U64} (hfirst : first.toNat = a + 1) (hlast : last.toNat = chain.length) :
    (SledStorage.heights first last).mapM s.blockByNumber = .ok (chain.drop a) := by
  have hread : ∀ (rest : List Block) (k : ℕ), chain.drop k = rest →
      ((List.range' (k + 1) rest.length).map (BitVec.ofNat 64)).mapM s.blockByNumber =
        .ok rest := by
    intro rest
    induction rest with
    | nil =>
      intro k _
      rfl
    | cons b rest ih =>
      intro k hk
      have hget : chain[k]? = some b := by
        have hhead : (chain.drop k)[0]? = some b := by rw [hk]; rfl
        rwa [List.getElem?_drop, Nat.add_zero] at hhead
      have hlt : k < chain.length := (List.getElem?_eq_some_iff.mp hget).1
      have hrow : s.blockByNumber (BitVec.ofNat 64 (k + 1)) = .ok b := by
        rw [blockByNumber_eq_ok, h.rows.block (k + 1) (by omega), List.getElem?_cons_succ, hget]
      have hrest : chain.drop (k + 1) = rest := by
        rw [← List.tail_drop, hk]
        rfl
      rw [List.length_cons, List.range'_succ, List.map_cons, List.mapM_cons, hrow, ok_bind,
        ih (k + 1) hrest]
      rfl
  unfold SledStorage.heights
  rw [hfirst, hlast]
  have hcount : chain.length + 1 - (a + 1) = (chain.drop a).length := by
    rw [List.length_drop]
    omega
  rw [hcount]
  exact hread _ a rfl

theorem Canonical.insertBlock (h : Canonical s genesis chain) {b : Block}
    (hnumber : b.header.number.toNat = chain.length + 1) (hfits : chain.length + 2 < 2 ^ 64) :
    Canonical (s.insertBlock b) genesis (chain ++ [b]) := by
  refine ⟨?_, h.rows.insert hnumber hfits⟩
  show some b.header.number = some (BitVec.ofNat 64 (chain ++ [b]).length)
  have hlength : (chain ++ [b]).length = chain.length + 1 := List.length_append
  rw [hlength]
  exact congrArg some (BitVec.eq_of_toNat_eq (by rw [hnumber, toNat_ofNat_of_lt (by omega)]))

/-! ## Publishing a suffix -/

variable {replacement : List Block}

/-- The blocks of a contiguous suffix, written one after the other. The induction is over the
suffix; what is written so far is the chain. -/
theorem chainRows_putBlocks {ε : Type} {err : BlockHeader → BlockHeader → ε} {parent : BlockHeader}
    (h : ChainRows s.blocks s.headers genesis chain) (hparent : parent.number.toNat = chain.length)
    (hcontiguous : SledStorage.checkContiguous O err parent replacement = .ok ())
    (hfits : chain.length + replacement.length + 1 < 2 ^ 64) :
    ChainRows (replacement.foldl SledStorage.putBlock s).blocks
      (replacement.foldl SledStorage.putBlock s).headers genesis (chain ++ replacement) := by
  induction replacement generalizing s parent chain with
  | nil =>
    rw [List.append_nil]
    exact h
  | cons b rest ih =>
    obtain ⟨⟨hnumber, -⟩, hrest⟩ := checkContiguous_cons.mp hcontiguous
    rw [List.length_cons] at hfits
    have hnat : b.header.number.toNat = chain.length + 1 := by
      rw [hnumber, toNat_saturatingAdd_one, hparent]
      omega
    have hput : ChainRows (s.putBlock b).blocks (s.putBlock b).headers genesis (chain ++ [b]) :=
      h.insert hnat (by omega)
    have hlength : (chain ++ [b]).length = chain.length + 1 := List.length_append
    have hall := ih hput (by omega) hrest (by omega)
    rw [List.append_assoc, List.singleton_append] at hall
    exact hall

theorem chainRows_removeBlocks {removed : List Block} (h : ChainRows s.blocks s.headers genesis chain)
    (hremoved : ∀ b ∈ removed, chain.length < b.header.number.toNat) :
    ChainRows (removed.foldl SledStorage.removeBlock s).blocks
      (removed.foldl SledStorage.removeBlock s).headers genesis chain := by
  induction removed generalizing s with
  | nil => exact h
  | cons b rest ih =>
    obtain ⟨hb, hrest⟩ := List.forall_mem_cons.mp hremoved
    exact ih (s := s.removeBlock b) (h.erase hb) hrest

theorem Canonical.removed (h : Canonical s genesis chain) {best ancestor : BlockHeader}
    {removed : List Block} (hbest : s.bestHeader = .ok best)
    (hle : ancestor.number.toNat ≤ best.number.toNat)
    (hremoved : (SledStorage.heights (saturatingAdd ancestor.number 1) best.number).mapM
      s.blockByNumber = .ok removed) :
    removed = chain.drop ancestor.number.toNat ∧ ancestor.number.toNat ≤ chain.length := by
  obtain ⟨_, -, -, hnumber⟩ := h.bestHeader hbest
  have hfits := h.rows.fits
  have hsum : (saturatingAdd ancestor.number 1).toNat = ancestor.number.toNat + 1 := by
    rw [toNat_saturatingAdd_one]
    omega
  have hread := h.mapM_heights (by omega) hsum hnumber
  exact ⟨Except.ok.inj (hremoved.symm.trans hread), by omega⟩

/-- **A publication replaces the end of the chain**, as long as the new tip is below the last
height. -/
theorem Canonical.publish (h : Canonical s genesis chain) {ancestor : BlockHeader}
    {native : NativeAccounts} {evm : EvmStateSnapshot} {totals : U64 × U128 × U128}
    (hs' : s.publishCanonicalSuffix O ancestor replacement native evm totals = .ok s')
    (htop : ∀ n, s'.bestNumber = some n → n.toNat + 1 < 2 ^ 64) :
    Canonical s' genesis (chain.take ancestor.number.toNat ++ replacement) ∧
      ancestor.number.toNat ≤ chain.length := by
  obtain ⟨best, tip, removed, hpublished⟩ := publishCanonicalSuffix_eq_ok hs'
  obtain ⟨rfl, hancestor⟩ := h.removed hpublished.current hpublished.below hpublished.bodies
  have htip := hpublished.last
  have hlast := htop _ hpublished.bestNumber
  rw [List.getLast?_eq_getElem?] at htip
  have hnonempty := (List.getElem?_eq_some_iff.mp htip).1
  have htipNumber := number_of_contiguous hpublished.contiguous htip
  have hlength : (chain.take ancestor.number.toNat).length = ancestor.number.toNat := by
    rw [List.length_take]
    omega
  have habove : ∀ b ∈ chain.drop ancestor.number.toNat,
      (chain.take ancestor.number.toNat).length < b.header.number.toNat := by
    intro b hb
    obtain ⟨i, hi⟩ := List.mem_iff_getElem?.mp hb
    rw [List.getElem?_drop] at hi
    rw [h.rows.number (ancestor.number.toNat + i + 1) b (by rw [List.getElem?_cons_succ, hi])]
    omega
  refine ⟨⟨?_, ?_⟩, hancestor⟩
  · rw [hpublished.bestNumber, List.length_append, hlength]
    exact congrArg some (BitVec.eq_of_toNat_eq (by rw [toNat_ofNat_of_lt (by omega)]; omega))
  · rw [hpublished.blocks, hpublished.headers]
    exact chainRows_putBlocks (chainRows_removeBlocks (h.rows.take _) habove) hlength.symm
      hpublished.contiguous (by omega)

end Blq
