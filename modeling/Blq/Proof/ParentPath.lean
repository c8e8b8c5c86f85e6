import Blq.Proof.BranchWalk
import Blq.Proof.CanonicalChain

/-!
# Parent paths and their work

The cumulative work of a block is the sum over the headers on the way from genesis to it. The way is
given by the parent hashes alone.

* `ParentPath.unique`: there is one way to a hash, unless two headers share theirs.
* `LinkedCanonical`: the canonical rows are a chain, and there are no others.
* `LinkedCanonical.recorded`: the work read off the canonical rows is that of the path.
* `LinkedCanonical.publish`: a publication leaves such rows.
-/

namespace Blq

open Word Result

variable {O : Oracle} {s s' : SledStorage} {genesis : BlockHeader} {hash : Hash256}
  {path path' : List BlockHeader}

/-! ## Paths -/

/-- The headers on the way from genesis to the header of the given hash. -/
inductive ParentPath (O : Oracle) (genesis : BlockHeader) : Hash256 → List BlockHeader → Prop
  | genesis : ParentPath O genesis (genesis.hash O) [genesis]
  | child {path : List BlockHeader} (header : BlockHeader)
      (h : ParentPath O genesis header.parentHash path) (hne : header ≠ genesis) :
      ParentPath O genesis (header.hash O) (path ++ [header])

def pathWork (path : List BlockHeader) : U128 := path.foldl addWork 0

theorem pathWork_concat (path : List BlockHeader) (header : BlockHeader) :
    pathWork (path ++ [header]) = addWork (pathWork path) header := by
  rw [pathWork, List.foldl_append]
  rfl

theorem ParentPath.cases (h : ParentPath O genesis hash path) :
    (path = [genesis] ∧ genesis.hash O = hash) ∨
      ∃ before header, path = before ++ [header] ∧ header ≠ genesis ∧ header.hash O = hash ∧
        ParentPath O genesis header.parentHash before := by
  cases h with
  | genesis => exact .inl ⟨rfl, rfl⟩
  | child header h hne => exact .inr ⟨_, header, rfl, hne, rfl, h⟩

/-- **Two paths to one hash are the same**, or a header of the one and another header of the other
have the same hash. By induction from the last header down. -/
theorem ParentPath.unique (h : ParentPath O genesis hash path)
    (h' : ParentPath O genesis hash path') :
    path' = path ∨ ∃ a ∈ path', ∃ b ∈ path, Collide O a b := by
  induction h generalizing path' with
  | genesis =>
    rcases h'.cases with ⟨rfl, -⟩ | ⟨before, header, rfl, hne, hhash, -⟩
    · exact .inl rfl
    · exact .inr ⟨header, by simp, genesis, by simp, hne, hhash⟩
  | child header h hne ih =>
    rcases h'.cases with ⟨rfl, hhash⟩ | ⟨before, header', rfl, -, hhash, hbefore⟩
    · exact .inr ⟨genesis, by simp, header, by simp, hne.symm, hhash⟩
    · by_cases hsame : header' = header
      · subst hsame
        rcases ih hbefore with rfl | ⟨a, ha, b, hb, hcollide⟩
        · exact .inl rfl
        · exact .inr ⟨a, List.mem_append_left _ ha, b, List.mem_append_left _ hb, hcollide⟩
      · exact .inr ⟨header', by simp, header, by simp, hsame, hhash⟩

/-- The work of the path to a hash, through headers of `seen`. -/
def Recorded (O : Oracle) (genesis : BlockHeader) (seen : BlockHeader → Prop) (hash : Hash256)
    (work : U128) : Prop :=
  ∃ path, ParentPath O genesis hash path ∧ (∀ header ∈ path, seen header) ∧ work = pathWork path

variable {seen : BlockHeader → Prop} {work : U128}

theorem Recorded.child (h : Recorded O genesis seen hash work) {header : BlockHeader}
    (hparent : header.parentHash = hash) (hne : header ≠ genesis) (hseen : seen header) :
    Recorded O genesis seen (header.hash O) (addWork work header) := by
  obtain ⟨path, hpath, hall, rfl⟩ := h
  rw [← hparent] at hpath
  refine ⟨path ++ [header], .child header hpath hne, ?_, (pathWork_concat path header).symm⟩
  intro other hother
  rcases List.mem_append.mp hother with hother | hother
  · exact hall other hother
  · obtain rfl : other = header := by simpa using hother
    exact hseen

/-- The blocks of a branch on top of a recorded one. The induction is over the branch, from its first
block up. -/
theorem Recorded.branch {root : Block} {suffix : List Block}
    (h : Recorded O genesis seen (root.header.hash O) work)
    (hlinked : (root :: suffix).IsChain (Linked O)) (hgenesis : genesis.number = 0)
    (hseen : ∀ b ∈ suffix, seen b.header) {tip : Block}
    (htip : (root :: suffix).getLast? = some tip) :
    Recorded O genesis seen (tip.header.hash O)
      (suffix.foldl (fun work block => addWork work block.header) work) := by
  induction suffix generalizing root work with
  | nil =>
    obtain rfl : root = tip := by simpa using htip
    exact h
  | cons first rest ih =>
    obtain ⟨hlink, hrest⟩ := List.isChain_cons_cons.mp hlinked
    obtain ⟨hfirst, hothers⟩ := List.forall_mem_cons.mp hseen
    have hne : first.header ≠ genesis := by
      intro heq
      have hnumber := congrArg BitVec.toNat hlink.2
      rw [heq, hgenesis, toNat_saturatingAdd] at hnumber
      have hone : (1 : U64).toNat = 1 := rfl
      have hzero : (0 : U64).toNat = 0 := rfl
      omega
    exact ih (h.child hlink.1 hne hfirst) hrest hothers (by simpa using htip)

/-! ## The canonical chain -/

/-- The canonical rows are a linked chain on top of genesis, and there are no others. -/
structure LinkedCanonical (O : Oracle) (s : SledStorage) (genesis : Block) (chain : List Block) :
    Prop where
  canonical : Canonical s genesis chain
  linked : (genesis :: chain).IsChain (Linked O)
  top : ∀ (k : U64) (b : Block), s.blocks[k]? = some b → k.toNat ≤ chain.length

variable {b : Block} {replacement : List Block}

section Canonical

variable {first : Block} {chain : List Block}

theorem LinkedCanonical.congr (h : LinkedCanonical O s first chain) (hblocks : s'.blocks = s.blocks)
    (hheaders : s'.headers = s.headers) (hbest : s'.bestNumber = s.bestNumber) :
    LinkedCanonical O s' first chain := by
  refine ⟨h.canonical.congr hblocks hheaders hbest, h.linked, fun k b hb => ?_⟩
  rw [hblocks] at hb
  exact h.top k b hb

theorem LinkedCanonical.row (h : LinkedCanonical O s first chain) {k : U64}
    (hb : s.blocks[k]? = some b) :
    (first :: chain)[k.toNat]? = some b ∧ k.toNat ≤ chain.length ∧ b.header.number = k := by
  have hk := h.top k b hb
  have hget := h.canonical.rows.block k.toNat hk
  rw [ofNat_toNat, hb] at hget
  exact ⟨hget.symm, hk, BitVec.eq_of_toNat_eq (h.canonical.rows.number _ _ hget.symm)⟩

theorem LinkedCanonical.workThrough (h : LinkedCanonical O s first chain) {i : ℕ} (hi : i ≤ chain.length) :
    canonicalWorkThroughNodeStorage s (BitVec.ofNat 64 i) =
      .ok ((first :: chain.take i).foldl (fun work block => addWork work block.header) 0) := by
  have hfits := h.canonical.rows.fits
  have hread : ∀ j ≤ chain.length,
      ((List.range' 0 (j + 1)).map (BitVec.ofNat 64)).foldlM (fun work number => do
        let block ← s.blockByNumber number
        pure (addWork work block.header)) (0 : U128) =
      (.ok ((first :: chain.take j).foldl (fun work block => addWork work block.header) 0) :
        Except StorageError U128) := by
    intro j hj
    induction j with
    | zero =>
      obtain ⟨b, hb, hrow, -⟩ := h.canonical.exists_block hj
      obtain rfl : first = b := Option.some.inj hb
      rw [List.range'_one, List.map_cons, List.foldlM_cons, blockByNumber_eq_ok.mpr hrow]
      rfl
    | succ j ih =>
      obtain ⟨b, hb, hrow, -⟩ := h.canonical.exists_block hj
      rw [List.getElem?_cons_succ] at hb
      have htake : chain.take (j + 1) = chain.take j ++ [b] := by
        rw [List.take_add_one, hb]
        rfl
      rw [List.range'_concat, List.map_append, List.foldlM_append, ih (by omega), ok_bind,
        List.map_cons, List.foldlM_cons, Nat.one_mul, Nat.zero_add, blockByNumber_eq_ok.mpr hrow, htake,
        ← List.cons_append, List.foldl_append]
      rfl
  have hheights : SledStorage.heights 0 (BitVec.ofNat 64 i) =
      (List.range' 0 (i + 1)).map (BitVec.ofNat 64) := by
    unfold SledStorage.heights
    rw [toNat_ofNat_of_lt (by omega)]
    rfl
  unfold canonicalWorkThroughNodeStorage
  rw [hheights]
  exact hread i hi

/-- **The work read off the canonical rows is that of the path.** -/
theorem LinkedCanonical.recorded (h : LinkedCanonical O s first chain)
    (hnumber : first.header.number = 0)
    (hseen : ∀ (k : U64) (b : Block), s.blocks[k]? = some b → seen b.header) {k : U64}
    (hb : s.blocks[k]? = some b) :
    ∃ work, canonicalWorkThroughNodeStorage s k = .ok work ∧
      Recorded O first.header seen (b.header.hash O) work := by
  obtain ⟨hget, hk, -⟩ := h.row hb
  have hrows : ∀ c ∈ first :: chain, seen c.header := by
    intro c hc
    obtain ⟨i, hi⟩ := List.mem_iff_getElem?.mp hc
    have hlt := (List.getElem?_eq_some_iff.mp hi).1
    rw [List.length_cons] at hlt
    obtain ⟨c', hc', hrow, -⟩ := h.canonical.exists_block (i := i) (by omega)
    obtain rfl := Option.some.inj (hi.symm.trans hc')
    exact hseen _ c hrow
  have hread := h.workThrough hk
  rw [ofNat_toNat] at hread
  have hfirst : Recorded O first.header seen (first.header.hash O) (pathWork [first.header]) := by
    refine ⟨[first.header], .genesis, ?_, rfl⟩
    intro header hheader
    obtain rfl : header = first.header := by simpa using hheader
    exact hrows first List.mem_cons_self
  -- the path goes up the chain to the row
  have htake : first :: chain.take k.toNat = (first :: chain).take (k.toNat + 1) := rfl
  refine ⟨_, hread, hfirst.branch ?_ hnumber ?_ ?_⟩
  · rw [htake]
    exact h.linked.take _
  · intro c hc
    exact hrows c (List.mem_cons_of_mem _ (List.mem_of_mem_take hc))
  · rw [htake, List.getLast?_take, if_neg (Nat.succ_ne_zero _), Nat.add_sub_cancel, hget]
    rfl

theorem linkedCanonical_first (hempty : s.blocks = ∅) (hnumber : first.header.number = 0) :
    LinkedCanonical O (s.insertBlock first) first [] := by
  refine ⟨canonical_first hnumber, .singleton first, ?_⟩
  show ∀ (k : U64) (b : Block), (s.blocks.insert first.header.number first)[k]? = some b → _
  rw [hempty, hnumber]
  exact Map.forall_insert (fun k b hb => absurd hb (by simp)) le_rfl

theorem LinkedCanonical.insertBlock (h : LinkedCanonical O s first chain) {parent : BlockHeader}
    (hbest : s.bestHeader = .ok parent) (hext : extendsHeader O parent b = true)
    (hfits : b.header.number.toNat + 1 < 2 ^ 64) :
    LinkedCanonical O (s.insertBlock b) first (chain ++ [b]) := by
  obtain ⟨hparentHash, hnumber⟩ := extendsHeader_iff.mp hext
  obtain ⟨tip, htip, rfl, htipNumber⟩ := h.canonical.bestHeader hbest
  have hlength := h.canonical.rows.fits
  have hnat : b.header.number.toNat = chain.length + 1 := by
    rw [hnumber, BitVec.toNat_add, htipNumber]
    exact Nat.mod_eq_of_lt hlength
  have hsaturating : b.header.number = saturatingAdd tip.header.number 1 := by
    refine BitVec.eq_of_toNat_eq ?_
    rw [hnat, toNat_saturatingAdd_one, htipNumber]
    omega
  have hsize : (chain ++ [b]).length = chain.length + 1 := List.length_append
  refine ⟨h.canonical.insertBlock hnat (by omega), ?_, Map.forall_insert (fun k c hc => ?_) (by omega)⟩
  · rw [← List.cons_append]
    refine List.isChain_append.mpr ⟨h.linked, .singleton b, ?_⟩
    intro last hlast head hhead
    obtain rfl : b = head := by simpa using hhead
    rw [Option.mem_def, List.getLast?_eq_getElem?, List.length_cons, Nat.add_sub_cancel, htip] at hlast
    obtain rfl := Option.some.inj hlast
    exact ⟨hparentHash, hsaturating⟩
  · have := h.top k c hc
    omega

end Canonical

/-! ## Publishing a suffix -/

theorem isChain_of_contiguous {ε : Type} {err : BlockHeader → BlockHeader → ε} {parent : Block}
    (h : SledStorage.checkContiguous O err parent.header replacement = .ok ()) :
    (parent :: replacement).IsChain (Linked O) := by
  induction replacement generalizing parent with
  | nil => exact .singleton parent
  | cons b rest ih =>
    obtain ⟨⟨hnumber, hparent⟩, hrest⟩ := checkContiguous_cons.mp h
    exact (ih hrest).cons_cons ⟨hparent, hnumber⟩

theorem row_putBlocks {k : U64} (h : (replacement.foldl SledStorage.putBlock s).blocks[k]? = some b) :
    (b ∈ replacement ∧ b.header.number = k) ∨ s.blocks[k]? = some b := by
  induction replacement generalizing s with
  | nil => exact .inr h
  | cons c rest ih =>
    rcases ih h with ⟨hmem, hnumber⟩ | hrow
    · exact .inl ⟨List.mem_cons_of_mem c hmem, hnumber⟩
    · have hput : (s.blocks.insert c.header.number c)[k]? = some b := hrow
      rw [Map.getElem?_insert_eq] at hput
      split at hput
      next hk =>
        obtain rfl := Option.some.inj hput
        exact .inl ⟨List.mem_cons_self, hk⟩
      next => exact .inr hput

theorem row_removeBlocks {removed : List Block} {k : U64}
    (h : (removed.foldl SledStorage.removeBlock s).blocks[k]? = some b) :
    s.blocks[k]? = some b ∧ ∀ c ∈ removed, c.header.number ≠ k := by
  induction removed generalizing s with
  | nil => exact ⟨h, by simp⟩
  | cons c rest ih =>
    obtain ⟨hrow, hrest⟩ := ih h
    have herase : (s.blocks.erase c.header.number)[k]? = some b := hrow
    rw [Map.getElem?_erase_eq] at herase
    split at herase
    next => exact absurd herase (Option.some_ne_none b).symm
    next hne => exact ⟨herase, List.forall_mem_cons.mpr ⟨hne, hrest⟩⟩

/-- **A publication leaves a linked chain**, as long as it is below the last height. -/
theorem LinkedCanonical.publish {first : Block} {chain : List Block}
    (h : LinkedCanonical O s first chain) {ancestor : BlockHeader} {native : NativeAccounts}
    {evm : EvmStateSnapshot} {totals : U64 × U128 × U128}
    (hs' : s.publishCanonicalSuffix O ancestor replacement native evm totals = .ok s')
    (hfits : ∀ b ∈ replacement, b.header.number.toNat + 1 < 2 ^ 64) :
    LinkedCanonical O s' first (chain.take ancestor.number.toNat ++ replacement) := by
  obtain ⟨best, tip, removed, hpublished⟩ := publishCanonicalSuffix_eq_ok hs'
  obtain ⟨stored, hstored, hhash⟩ := hpublished.stored
  have htop : ∀ n, s'.bestNumber = some n → n.toNat + 1 < 2 ^ 64 := by
    intro n hn
    obtain rfl := Option.some.inj (hpublished.bestNumber.symm.trans hn)
    exact hfits tip (List.mem_of_getLast? hpublished.last)
  obtain ⟨hcanonical, hancestor⟩ := h.canonical.publish hs' htop
  obtain ⟨c, hc, -, hheader⟩ := h.canonical.exists_block hancestor
  rw [ofNat_toNat] at hheader
  obtain rfl : c.header = stored := Option.some.inj
    (hheader.symm.trans (headerByNumber_eq_ok.mp hstored))
  have hnumber : c.header.number = ancestor.number :=
    BitVec.eq_of_toNat_eq (h.canonical.rows.number _ c hc)
  refine ⟨hcanonical, ?_, fun k b hb => ?_⟩
  · -- the suffix is linked to the ancestor it names, which has the hash of the row
    have hsuffix : ((⟨ancestor, [], []⟩ : Block) :: replacement).IsChain (Linked O) :=
      isChain_of_contiguous hpublished.contiguous
    have htake : first :: chain.take ancestor.number.toNat =
        (first :: chain).take (ancestor.number.toNat + 1) := rfl
    rw [← List.cons_append, htake]
    refine List.isChain_append.mpr ⟨h.linked.take _, hsuffix.tail, ?_⟩
    intro last hlast head hhead
    rw [Option.mem_def, List.getLast?_take, if_neg (Nat.succ_ne_zero _), Nat.add_sub_cancel, hc,
      Option.some_or] at hlast
    obtain rfl := Option.some.inj hlast
    obtain ⟨hparent, hnext⟩ := (List.isChain_cons.mp hsuffix).1 head hhead
    exact ⟨hparent.trans hhash.symm, by rw [hnumber]; exact hnext⟩
  · rw [hpublished.blocks] at hb
    obtain ⟨rfl, -⟩ := h.canonical.removed hpublished.current hpublished.below hpublished.bodies
    rcases row_putBlocks hb with ⟨hmem, rfl⟩ | hrow
    · obtain ⟨i, hi⟩ := List.mem_iff_getElem?.mp
        (List.mem_cons_of_mem first (List.mem_append_right (chain.take ancestor.number.toNat) hmem))
      have hlt := (List.getElem?_eq_some_iff.mp hi).1
      rw [List.length_cons] at hlt
      rw [hcanonical.rows.number i b hi]
      omega
    · -- a row above the ancestor would have been removed
      obtain ⟨hold, hkept⟩ := row_removeBlocks hrow
      obtain ⟨hget, hk, hbnumber⟩ := h.row hold
      rw [List.length_append, List.length_take]
      by_contra habove
      obtain ⟨i, hi⟩ : ∃ i, k.toNat = ancestor.number.toNat + i + 1 :=
        ⟨k.toNat - ancestor.number.toNat - 1, by omega⟩
      rw [hi, List.getElem?_cons_succ, ← List.getElem?_drop] at hget
      exact hkept b (List.mem_of_getElem? hget) hbnumber

end Blq
